import SnmpAgent.Proofs.Server.Operations

/-!
# Overtaking

The search for the client to be served begins behind the one that was served
last, so between two turns of a client the search comes to every other one. It
begins at a position, though, and positions shift when clients leave: if one
leaves that stood before a client that is next in turn, the search passes that
client over. It does so at most once for each client that stood before it, and
nothing else lets a client be overtaken.

So a client that is always ready falls behind any other by one turn, and one
more for each client before it that leaves. It waits for as many choices as
there is room for clients, and for as many again whenever it is passed over. So
it is served at last, for it can be passed over only as often as it can step up.

* `turns`, `StaysReady`: the turns of one client, wherever it comes to stand;
* `Sound.turn_add_le`, `Sound.turns_add_le`: what one operation, and any number
  of them, can take from a client that is ready;
* `Sound.choice_add_le`, `Sound.countP_isPoll_add_le`: how long they can keep
  it waiting;
* `overtaken_le`: how often it is overtaken and how long it waits, after any
  operations.
-/

namespace SnmpAgent

namespace ClientTable

variable {t t' : ClientTable} {i j i' j' k : Nat}

/-! ## The turns of a client -/

/-- How many turns the client at `i` has in some operations, wherever it comes
    to stand. -/
def turns : ClientTable → Nat → List Operation → Nat
  | _, _, [] => 0
  | t, i, op :: ops =>
    t.turn i op + (t.placeAfter? i op).elim 0 fun i' => (t.operate op).turns i' ops

/-- The client at `i` stays in some operations, in which it comes to `k`, and is
    open and ready whenever a client is chosen. -/
inductive StaysReady : ClientTable → Nat → List Operation → Nat → Prop where
  | nil (t : ClientTable) (i : Nat) : StaysReady t i [] i
  | cons {t : ClientTable} {i i' k : Nat} {op : Operation} {ops : List Operation}
      (hwaits : t.Waits i op) (hplace : t.placeAfter? i op = some i')
      (h : StaysReady (t.operate op) i' ops k) : StaysReady t i (op :: ops) k

theorem StaysReady.le {ops : List Operation} (h : t.StaysReady i ops k) : k ≤ i := by
  induction h with
  | nil => exact Nat.le_refl _
  | cons _ hplace _ ih => exact ih.trans (placeAfter?_le hplace)

/-! ## What one operation can take -/

/-- How many turns the client at `i` may have before the search has come to `j`:
    one, unless it comes to `j` first. -/
def lag (t : ClientTable) (i j : Nat) : Nat := if Precedes t.next j i then 0 else 1

theorem lag_le_one (t : ClientTable) (i j : Nat) : t.lag i j ≤ 1 := by
  rw [lag]
  split_ifs <;> omega

/-- A step up in the table makes up for being passed over. -/
theorem lag_add_le (hle : j' ≤ j)
    (h : j' = j → Precedes t.next j i → Precedes t'.next j' i') :
    t'.lag i' j' + j' ≤ t.lag i j + j := by
  rcases Nat.lt_or_eq_of_le hle with hlt | heq
  · have := t'.lag_le_one i' j'
    omega
  · rw [heq] at h ⊢
    rw [lag, lag]
    split_ifs with h₁ h₂
    · omega
    · omega
    · exact absurd (h rfl ‹_›) h₁
    · omega

/-- A client that is not chosen, though it is ready, comes before the one that
    is. -/
theorem Sound.turn_add_le_poll (h : t.Sound) (hne : i ≠ j) {isReady : Client → Bool}
    (hwaits : t.Waits j (.poll isReady)) :
    t.turn i (.poll isReady) + ((t.operate (.poll isReady)).lag i j + j) ≤
      t.turn j (.poll isReady) + (t.lag i j + j) := by
  have hj := hwaits.lt_length
  obtain ⟨z, hzlt, hfirst, hturn, hbehind⟩ := h.exists_served hwaits
  rw [hturn, hturn]
  rcases eq_or_ne z j with rfl | hzj
  · -- Its own turn makes up for the one that the other client may have now.
    have hlag := (t.operate (.poll isReady)).lag_le_one i z
    rw [if_neg hne.symm, if_pos rfl]
    omega
  · have hbefore := hfirst.resolve_left hzj
    rcases eq_or_ne z i with rfl | hzi
    · -- The other client was before it, and is now behind it.
      have hwas : ¬Precedes t.next j z := by
        rw [Precedes] at hbefore ⊢
        omega
      have hnow : Precedes (t.operate (.poll isReady)).next j z := by
        rw [Precedes]
        omega
      rw [if_pos rfl, if_neg hzj, lag, lag, if_pos hnow, if_neg hwas]
      omega
    · rw [if_neg hzi, if_neg hzj, Nat.zero_add, Nat.zero_add]
      refine lag_add_le (Nat.le_refl j) fun _ hwas => ?_
      rw [Precedes] at hbefore hwas ⊢
      omega

/-- A client that comes makes the search pass over another one only if it makes
    that one step up. -/
theorem lag_add_le_insert {c : Client} (hj : t.placeAfter? j (.insert c) = some j')
    (hi : t.placeAfter? i (.insert c) = some i') :
    (t.operate (.insert c)).lag i' j' + j' ≤ t.lag i j + j := by
  refine lag_add_le (placeAfter?_le hj) fun hsame hwas => ?_
  change Precedes t.next j' i'
  rw [Precedes] at hwas ⊢
  -- Either all clients stay in place, or those behind the evicted one step up.
  rcases t.places_of_insert c with hplaces | ⟨e, hplaces⟩
  · have := hplaces i i' hi
    omega
  · have := hplaces i i' hi
    have := hplaces j j' hj
    omega

/-- Clients that leave make the search pass over a client only if they make it
    step up. -/
theorem lag_add_le_reap (hj : t.placeAfter? j .reap = some j')
    (hi : t.placeAfter? i .reap = some i') :
    (t.operate .reap).lag i' j' + j' ≤ t.lag i j + j := by
  refine lag_add_le (placeAfter?_le hj) fun hsame hwas => ?_
  rw [hsame] at hj ⊢
  obtain ⟨c, hget, hopen, hstays⟩ := exists_of_placeAfter?_reap hj
  obtain ⟨-, -, -, rfl⟩ := exists_of_placeAfter?_reap hi
  have hbehind : j < i → t.reapedAt j < t.reapedAt i := reapedAt_lt hget hopen
  have hbefore : i < j → t.reapedAt i = i := fun hlt => reapedAt_eq_of_le (Nat.le_of_lt hlt) hstays
  have hle := t.reapedAt_le i
  have hnext := next_reap hj
  change Precedes t.reap.next j (t.reapedAt i)
  rw [Precedes] at hwas ⊢
  omega

/-- In one operation, a client that is ready loses no more than its own turn, or
    a step up, makes up for. -/
theorem Sound.turn_add_le (h : t.Sound) (hne : i ≠ j) {op : Operation} (hwaits : t.Waits j op)
    (hj : t.placeAfter? j op = some j') (hi : t.placeAfter? i op = some i') :
    t.turn i op + ((t.operate op).lag i' j' + j') ≤ t.turn j op + (t.lag i j + j) := by
  cases op with
  | poll isReady =>
    cases hi
    cases hj
    exact h.turn_add_le_poll hne hwaits
  | update l c =>
    cases hi
    cases hj
    exact Nat.le_refl _
  | insert c => exact Nat.add_le_add_left (lag_add_le_insert hj hi) 0
  | reap => exact Nat.add_le_add_left (lag_add_le_reap hj hi) 0

/-! ## What any number of operations can take -/

/-- In some operations, a client that is always ready falls behind another one
    by the turn that this one may have now, and by one more for each step up. -/
theorem Sound.turns_add_le (h : t.Sound) (hne : i ≠ j) {ops : List Operation}
    (hready : t.StaysReady j ops k) :
    t.turns i ops + k ≤ t.turns j ops + (t.lag i j + j) := by
  induction hready generalizing i with
  | nil t j => exact Nat.add_le_add_left (Nat.le_add_left j _) 0
  | @cons t j j' k op ops hwaits hj hready ih =>
    rw [turns, turns, hj]
    -- A client that leaves has no turns any more, and owes none.
    cases hi : t.placeAfter? i op with
    | none =>
      have hk := hready.le.trans (placeAfter?_le hj)
      rw [turn_eq_zero_of_leaves hi]
      dsimp only [Option.elim]
      omega
    | some i' =>
      have hstep := h.turn_add_le hne hwaits hj hi
      have hrest := ih (h.operate op) (placeAfter?_ne hne hj hi)
      dsimp only [Option.elim]
      omega

/-! ## How long a client waits -/

/-- How many positions the search looks at before it comes to `j`, if the table
    is full. -/
def ahead (t : ClientTable) (j : Nat) : Nat :=
  if t.next ≤ j then j - t.next else t.capacity - t.next + j

/-- How many choices the client at `j` may wait for, if it is passed over
    whenever it steps up. -/
def delay (t : ClientTable) (j : Nat) : Nat := t.capacity * j + t.ahead j

theorem ahead_lt (hj : j < t.capacity) : t.ahead j < t.capacity := by
  rw [ahead]
  split_ifs <;> omega

/-- A step up makes up for a whole search. -/
theorem delay_le (hcapacity : t'.capacity = t.capacity) (hj : j < t.capacity) (hle : j' ≤ j)
    (h : j' = j → t'.ahead j' ≤ t.ahead j) : t'.delay j' ≤ t.delay j := by
  rw [delay, delay, hcapacity]
  rcases Nat.lt_or_eq_of_le hle with hlt | heq
  · have hahead : t'.ahead j' < t'.capacity := ahead_lt (by omega)
    have hstep : t.capacity * (j' + 1) ≤ t.capacity * j := Nat.mul_le_mul_left _ hlt
    rw [Nat.mul_add_one] at hstep
    omega
  · have := h heq
    rw [heq] at this ⊢
    omega

/-- A choice brings the search nearer to a client that is ready, unless it is
    the one chosen. -/
theorem Sound.choice_add_le_poll (h : t.Sound) {isReady : Client → Bool}
    (hwaits : t.Waits j (.poll isReady)) :
    1 + (t.operate (.poll isReady)).delay j ≤
      t.capacity * t.turn j (.poll isReady) + t.delay j := by
  have hroom := h.length_le
  have hj := hwaits.lt_length
  have hcapacity := t.capacity_operate (.poll isReady)
  obtain ⟨z, hzlt, hfirst, hturn, hbehind⟩ := h.exists_served hwaits
  rw [hturn, delay, delay, hcapacity]
  split_ifs with hzj
  · have hahead : (t.operate (.poll isReady)).ahead j < (t.operate (.poll isReady)).capacity :=
      ahead_lt (by omega)
    omega
  · have hbefore := hfirst.resolve_left hzj
    rw [Precedes] at hbefore
    rw [ahead, ahead, hcapacity]
    split_ifs <;> omega

/-- Only choices bring a client that is ready nearer to its turn, and nothing
    takes it farther from it, but that turn. -/
theorem Sound.choice_add_le (h : t.Sound) {op : Operation} (hwaits : t.Waits j op)
    (hj : t.placeAfter? j op = some j') :
    (if op.isPoll then 1 else 0) + (t.operate op).delay j' ≤
      t.capacity * t.turn j op + t.delay j := by
  have hinside : j < t.capacity := hwaits.lt_length.trans_le h.length_le
  cases op with
  | poll isReady =>
    cases hj
    exact h.choice_add_le_poll hwaits
  | update l c =>
    cases hj
    exact Nat.le_refl _
  | insert c =>
    have hdelay : (t.operate (.insert c)).delay j' ≤ t.delay j :=
      delay_le rfl hinside (placeAfter?_le hj) fun hsame => hsame ▸ Nat.le_refl _
    exact Nat.add_le_add (Nat.zero_le _) hdelay
  | reap =>
    have hdelay : (t.operate .reap).delay j' ≤ t.delay j := by
      refine delay_le rfl hinside (placeAfter?_le hj) fun hsame => ?_
      rw [hsame] at hj ⊢
      have hnext := next_reap hj
      have hcapacity : t.reap.capacity = t.capacity := rfl
      change t.reap.ahead j ≤ t.ahead j
      rw [ahead, ahead, hcapacity]
      split_ifs <;> omega
    exact Nat.add_le_add (Nat.zero_le _) hdelay

/-- In some operations, there are as many choices as there is room for clients
    for each turn of a client that is always ready and for each step up, and no
    more than it may wait for now besides. -/
theorem Sound.countP_isPoll_add_le (h : t.Sound) {ops : List Operation}
    (hready : t.StaysReady j ops k) :
    ops.countP Operation.isPoll + t.capacity * k ≤ t.capacity * t.turns j ops + t.delay j := by
  induction hready with
  | nil t j => exact Nat.add_le_add_left (Nat.le_add_right _ _) 0
  | @cons t j j' k op ops hwaits hj hready ih =>
    have hstep := h.choice_add_le hwaits hj
    have hrest := ih (h.operate op)
    rw [capacity_operate] at hrest
    rw [List.countP_cons, turns, hj, Option.elim_some, Nat.mul_add]
    omega

/-- So all choices are made in as many rounds as a client that is always ready
    has turns, and one more, and one more for each step up, where a round has as
    many choices as there is room for clients. -/
theorem Sound.countP_isPoll_le (h : t.Sound) {ops : List Operation}
    (hready : t.StaysReady j ops k) :
    ops.countP Operation.isPoll ≤ t.capacity * (t.turns j ops + 1 + (j - k)) := by
  have hchoices := h.countP_isPoll_add_le hready
  have hle := hready.le
  cases hready with
  | nil => exact Nat.zero_le _
  | cons hwaits hplace hready =>
    obtain ⟨d, rfl⟩ := Nat.exists_eq_add_of_le hle
    have hahead := ahead_lt (hwaits.lt_length.trans_le h.length_le)
    rw [delay, Nat.mul_add] at hchoices
    rw [Nat.add_sub_cancel_left, Nat.mul_add, Nat.mul_add_one]
    omega

/-- After any operations, a client that is always open and ready is overtaken by
    another one only so often: the other one has one turn more, at most, and one
    more for each client that stood before the ready one and has left. So if it
    has two turns, then the ready one has one, or one of the clients that stood
    before it has left. It does not wait forever either: all choices are made in
    as many rounds as it has turns, and one more, and one more for each of those
    that have left, where a round has as many choices as there is room for
    clients. -/
theorem overtaken_le (capacity : Nat) (before ops : List Operation) (hne : i ≠ j)
    (hready : ((empty capacity).operateAll before).StaysReady j ops k) :
    ((empty capacity).operateAll before).turns i ops ≤
        ((empty capacity).operateAll before).turns j ops + 1 + (j - k) ∧
      (2 ≤ ((empty capacity).operateAll before).turns i ops →
        0 < ((empty capacity).operateAll before).turns j ops ∨ k < j) ∧
      ops.countP Operation.isPoll ≤
        capacity * (((empty capacity).operateAll before).turns j ops + 1 + (j - k)) := by
  have hsound := (sound_empty capacity).operateAll before
  have hturns := hsound.turns_add_le hne hready
  have hlag := ((empty capacity).operateAll before).lag_le_one i j
  have hle := hready.le
  have hcapacity : ((empty capacity).operateAll before).capacity = capacity :=
    capacity_operateAll (empty capacity) before
  have hchoices := hsound.countP_isPoll_le hready
  rw [hcapacity] at hchoices
  exact ⟨by omega, fun _ => by omega, hchoices⟩

/-! ## Three clients -/

/-- Three clients come, of which the first is idle. -/
def arrivals : List Operation :=
  [.insert (.accepted (.v4 ⟨10, 0, 0, 1⟩ 4001) 0), .insert (.accepted (.v4 ⟨10, 0, 0, 2⟩ 4002) 10),
    .insert (.accepted (.v4 ⟨10, 0, 0, 3⟩ 4003) 20)]

/-- A client is chosen among those that are not idle. -/
def pollBusy : Operation := .poll fun c => 0 < c.lastActivity

/-- Two busy clients take turns. -/
theorem overtaken_le_arrivals :
    ((empty 3).operateAll arrivals).StaysReady 2 [pollBusy, pollBusy, pollBusy] 2 ∧
      ((empty 3).operateAll arrivals).turns 1 [pollBusy, pollBusy, pollBusy] ≤
        ((empty 3).operateAll arrivals).turns 2 [pollBusy, pollBusy, pollBusy] + 1 + (2 - 2) ∧
      (2 ≤ ((empty 3).operateAll arrivals).turns 1 [pollBusy, pollBusy, pollBusy] →
        0 < ((empty 3).operateAll arrivals).turns 2 [pollBusy, pollBusy, pollBusy] ∨ 2 < 2) ∧
      [pollBusy, pollBusy, pollBusy].countP Operation.isPoll ≤
        3 * (((empty 3).operateAll arrivals).turns 2 [pollBusy, pollBusy, pollBusy] + 1 +
          (2 - 2)) := by
  have hready : ((empty 3).operateAll arrivals).StaysReady 2 [pollBusy, pollBusy, pollBusy] 2 :=
    .cons ⟨_, rfl, rfl, by decide⟩ rfl (.cons ⟨_, rfl, rfl, by decide⟩ rfl
      (.cons ⟨_, rfl, rfl, by decide⟩ rfl (.nil _ _)))
  exact ⟨hready, overtaken_le 3 arrivals _ (by decide) hready⟩

/-- A fourth client comes. -/
def newcomer : Operation := .insert (.accepted (.v4 ⟨10, 0, 0, 4⟩ 4004) 0)

/-- A client that is always open and ready may be overtaken while it has no
    turn: the idle client makes place for a new one, and the search passes over
    the client that is next. -/
theorem overtaken_after_insert :
    ((empty 3).operateAll arrivals).StaysReady 2 [pollBusy, newcomer, pollBusy] 1 ∧
      ((empty 3).operateAll arrivals).turns 1 [pollBusy, newcomer, pollBusy] = 2 ∧
      ((empty 3).operateAll arrivals).turns 2 [pollBusy, newcomer, pollBusy] = 0 := by
  have hfirst : ((empty 3).operateAll arrivals).Waits 2 pollBusy := ⟨_, rfl, rfl, by decide⟩
  have hstays : 2 < (((empty 3).operateAll arrivals).operate pollBusy).length := by
    decide +kernel
  have hagain : ((((empty 3).operateAll arrivals).operate pollBusy).operate newcomer).Waits 1
      pollBusy :=
    ⟨.accepted (.v4 ⟨10, 0, 0, 3⟩ 4003) 20, by decide +kernel, rfl, by decide⟩
  refine ⟨.cons hfirst rfl (.cons hstays ?_ (.cons hagain rfl (.nil _ _))), ?_, ?_⟩
  all_goals decide +kernel

/-- It may also be overtaken when a client leaves that was served before it. -/
example : (((empty 3).operateAll arrivals).turns 0
      [.poll fun _ => true, .poll fun _ => true,
        .update 1 (Client.accepted (.v4 ⟨10, 0, 0, 2⟩ 4002) 10).close, .reap, .poll fun _ => true],
    ((empty 3).operateAll arrivals).turns 2
      [.poll fun _ => true, .poll fun _ => true,
        .update 1 (Client.accepted (.v4 ⟨10, 0, 0, 2⟩ 4002) 10).close, .reap, .poll fun _ => true]) =
    (2, 0) := by
  decide +kernel

end ClientTable

end SnmpAgent
