import SnmpAgent.Proofs.Server.Eviction
import SnmpAgent.Proofs.Server.Places

/-!
# Operations on the table of clients

The loop of the server chooses a client to be served, makes it another one, lets
clients come, and takes those out that are done with. The client that is chosen
is the first ready one in a search that begins behind the one that was served
last. The others keep their places, or step up when some before them leave.

* `Precedes`, `Sound.exists_served`: the order of the search, and where it ends;
* `Operation`, `operate`: what the loop does with its table;
* `placeAfter?`: where a client comes to stand, and is found (`get?_operate`); no
  client moves down (`placeAfter?_le`), and different clients stay apart
  (`placeAfter?_ne`);
* `Sound.operate`: what every operation preserves;
* `Server.step_eq_operateAll`: the steps of the loop are such operations.
-/

namespace SnmpAgent

namespace ClientTable

variable {t : ClientTable} {i j i' j' : Nat}

/-! ## The order of the search -/

/-- Whether a search that begins at `start` comes to position `i` before it
    comes to `j`. -/
def Precedes (start i j : Nat) : Prop := start ≤ i ∧ (i < j ∨ j < start) ∨ i < j ∧ j < start

instance (start i j : Nat) : Decidable (Precedes start i j) := inferInstanceAs (Decidable (_ ∨ _))

/-- The search goes through all positions once, and starts over behind the last
    one. -/
theorem add_mod_length (hnext : t.next < t.length) {m : Nat} (hm : m ≤ t.length) :
    (t.next + m) % t.length = if t.next + m < t.length then t.next + m
      else t.next + m - t.length := by
  split_ifs with hlt
  · exact Nat.mod_eq_of_lt hlt
  · rw [Nat.mod_eq_sub_mod (Nat.le_of_not_lt hlt), Nat.mod_eq_of_lt (by omega)]

/-- The search ends at a ready client, if it has not ended before. -/
theorem exists_ready? {isReady : Client → Bool} {c : Client} (hnext : t.next < t.length)
    (hget : t.get? j = some c) (hopen : c.closed = false) (hready : isReady c = true) :
    ∃ z, t.ready? isReady = some z ∧ z < t.length ∧ (z = j ∨ Precedes t.next z j) := by
  have hj : j < t.length := (List.getElem?_eq_some_iff.1 hget).1
  have hfound : (t.get? j).any (fun c => !c.closed && isReady c) = true := by
    rw [hget, Option.any_some, hopen, hready]
    rfl
  -- The number of positions that the search looks at before it comes to `j`.
  obtain ⟨m, hm, hmj⟩ : ∃ m < t.length, (t.next + m) % t.length = j := by
    rcases Nat.lt_or_ge j t.next with hlt | hge
    · refine ⟨j + t.length - t.next, by omega, ?_⟩
      rw [add_mod_length hnext (by omega)]
      split_ifs <;> omega
    · refine ⟨j - t.next, by omega, ?_⟩
      rw [add_mod_length hnext (by omega)]
      split_ifs <;> omega
  have hmem : j ∈ t.order := List.mem_map.2 ⟨m, List.mem_range.2 hm, hmj⟩
  have hsome : (t.ready? isReady).isSome := List.find?_isSome.2 ⟨j, hmem, hfound⟩
  obtain ⟨z, hz⟩ := Option.isSome_iff_exists.1 hsome
  obtain ⟨-, l, hl, hlz, hbefore⟩ := List.find?_eq_some_iff_getElem.1 hz
  have hlength : t.order.length = t.length := by simp [order]
  rw [hlength] at hl
  have hle : l ≤ m := by
    by_contra hlt
    have hmiss := hbefore m (Nat.lt_of_not_le hlt)
    simp [order, hmj, hfound] at hmiss
  have hlz : (t.next + l) % t.length = z := by simpa [order] using hlz
  refine ⟨z, hz, ?_, ?_⟩
  · rw [← hlz]
    exact Nat.mod_lt _ (Nat.zero_lt_of_lt hj)
  · rw [add_mod_length hnext (Nat.le_of_lt hl)] at hlz
    rw [add_mod_length hnext (Nat.le_of_lt hm)] at hmj
    rw [Precedes]
    split_ifs at hlz hmj <;> omega

/-! ## Operations -/

/-- What the loop of the server does with its table. A client is chosen among
    those that are ready; the one at a position becomes any other, such as the
    same one, done with; a client comes; and those that are done with leave. -/
inductive Operation where
  | poll (isReady : Client → Bool)
  | update (i : Nat) (c : Client)
  | insert (c : Client)
  | reap

/-- Whether a client is chosen. -/
def Operation.isPoll : Operation → Bool
  | .poll _ => true
  | .update _ _ | .insert _ | .reap => false

/-- The table after an operation. -/
def operate (t : ClientTable) : Operation → ClientTable
  | .poll isReady => (t.ready? isReady).elim t t.served
  | .update i c => t.set i c
  | .insert c => t.insert c
  | .reap => t.reap

/-- The table after some operations. -/
def operateAll (t : ClientTable) (ops : List Operation) : ClientTable := ops.foldl operate t

/-- The position of the client that is served in an operation, if one is. -/
def served? (t : ClientTable) : Operation → Option Nat
  | .poll isReady => t.ready? isReady
  | .update _ _ | .insert _ | .reap => none

/-- How many turns the client at `i` has in an operation. -/
def turn (t : ClientTable) (i : Nat) (op : Operation) : Nat :=
  if t.served? op = some i then 1 else 0

/-- The position to which the client at `i` comes in an operation, if it stays. -/
def placeAfter? (t : ClientTable) (i : Nat) : Operation → Option Nat
  | .poll _ | .update _ _ => some i
  | .insert _ => if t.evictedAt? = some i then none else some (t.stayingAt i)
  | .reap => if (t.get? i).any (!·.closed) then some (t.reapedAt i) else none

/-- There is a client at `i`, which is open and ready if the operation is a
    choice among the ready ones. -/
def Waits (t : ClientTable) (i : Nat) : Operation → Prop
  | .poll isReady => ∃ c, t.get? i = some c ∧ c.closed = false ∧ isReady c = true
  | .update _ _ | .insert _ | .reap => i < t.length

theorem Waits.lt_length {op : Operation} (h : t.Waits i op) : i < t.length := by
  cases op with
  | poll isReady =>
    obtain ⟨c, hget, -⟩ := h
    exact (List.getElem?_eq_some_iff.1 hget).1
  | update | insert | reap => exact h

/-! ## What operations preserve -/

/-- The table is not overfull, and the search begins within it. -/
structure Sound (t : ClientTable) : Prop where
  length_le : t.length ≤ t.capacity
  /-- The search begins at a client, or at the beginning. -/
  next_lt : t.next < t.length ∨ t.next = 0

theorem sound_empty (capacity : Nat) : (empty capacity).Sound := ⟨Nat.zero_le _, .inr rfl⟩

/-- A table does not shrink when a client comes. -/
theorem TakesIn.le_length {c : Client} {d? : Option Client} {cs : List Client}
    (h : t.TakesIn c d? cs) : t.length ≤ cs.length := by
  rw [length]
  cases h with
  | room => simp
  | full _ _ hyields =>
    rw [hyields.clients]
    simp
  | never _ hnil => rw [hnil]

theorem Sound.operate (h : t.Sound) (op : Operation) : (t.operate op).Sound := by
  cases op with
  | poll isReady =>
    rw [ClientTable.operate]
    cases hready : t.ready? isReady with
    | none => exact h
    | some z =>
      obtain ⟨c, hget, -⟩ := exists_of_ready? hready
      have hz : z < t.length := (List.getElem?_eq_some_iff.1 hget).1
      exact ⟨h.length_le, .inl (Nat.mod_lt _ (Nat.zero_lt_of_lt hz))⟩
  | update i c =>
    have hlength : (t.set i c).length = t.length := List.length_set
    refine ⟨hlength.trans_le h.length_le, ?_⟩
    rw [ClientTable.operate, hlength]
    exact h.next_lt
  | insert c =>
    have htakes := takesIn_insert h.length_le c
    exact ⟨htakes.length_le, h.next_lt.imp_left fun hlt => hlt.trans_le htakes.le_length⟩
  | reap =>
    refine ⟨(List.length_filter_le _ _).trans h.length_le, ?_⟩
    rw [ClientTable.operate, reap]
    dsimp only
    split_ifs with hlt
    · exact .inl hlt
    · exact .inr rfl

theorem capacity_operate (t : ClientTable) (op : Operation) :
    (t.operate op).capacity = t.capacity := by
  cases op with
  | poll isReady =>
    rw [operate]
    cases t.ready? isReady <;> rfl
  | update | insert | reap => rfl

theorem capacity_operateAll (t : ClientTable) (ops : List Operation) :
    (t.operateAll ops).capacity = t.capacity := by
  induction ops generalizing t with
  | nil => rfl
  | cons op ops ih => exact (ih (t.operate op)).trans (t.capacity_operate op)

theorem Sound.operateAll (h : t.Sound) (ops : List Operation) : (t.operateAll ops).Sound := by
  induction ops generalizing t with
  | nil => exact h
  | cons op ops ih => exact ih (h.operate op)

/-- Where a client is ready, the search ends at a client that it comes to no
    later. It goes on behind that one, or at the beginning behind the last one. -/
theorem Sound.exists_served (h : t.Sound) {isReady : Client → Bool}
    (hwaits : t.Waits j (.poll isReady)) :
    ∃ z < t.length, (z = j ∨ Precedes t.next z j) ∧
      (∀ l, t.turn l (.poll isReady) = if z = l then 1 else 0) ∧
      ((t.operate (.poll isReady)).next = z + 1 ∧ z + 1 < t.length ∨
        (t.operate (.poll isReady)).next = 0 ∧ z + 1 = t.length) := by
  have hj := hwaits.lt_length
  obtain ⟨c, hget, hopen, hready⟩ := hwaits
  have hnext : t.next < t.length := h.next_lt.elim id fun hzero => by omega
  obtain ⟨z, hz, hzlt, hfirst⟩ := exists_ready? hnext hget hopen hready
  refine ⟨z, hzlt, hfirst, fun l => ?_, ?_⟩
  · rw [turn, served?, hz]
    simp only [Option.some.injEq]
  · have hserved : (t.operate (.poll isReady)).next = (z + 1) % t.length := by
      rw [ClientTable.operate, hz]
      rfl
    rw [hserved]
    rcases Nat.lt_or_eq_of_le (Nat.succ_le_of_lt hzlt) with hlt | heq
    · exact .inl ⟨Nat.mod_eq_of_lt hlt, hlt⟩
    · exact .inr ⟨by rw [← heq, Nat.succ_eq_add_one, Nat.mod_self], heq⟩

/-! ## Places -/

theorem stayingAt_le (t : ClientTable) (i : Nat) : t.stayingAt i ≤ i := by
  rw [stayingAt]
  split_ifs
  · exact Nat.sub_le i 1
  · exact Nat.le_refl i

theorem reapedAt_le (t : ClientTable) (i : Nat) : t.reapedAt i ≤ i :=
  List.countP_le_length.trans (List.length_take_le i _)

/-- A client that is not done with counts for the places of those behind it. -/
theorem reapedAt_lt {c : Client} (hget : t.get? i = some c) (hopen : c.closed = false)
    (hlt : i < j) : t.reapedAt i < t.reapedAt j := by
  have hsucc : t.reapedAt (i + 1) = t.reapedAt i + 1 := by
    rw [reapedAt, List.take_add_one, List.countP_append, ← get?, hget]
    simp [hopen, reapedAt]
  have hmono : t.reapedAt (i + 1) ≤ t.reapedAt j :=
    List.Sublist.countP_le (List.take_sublist_take_left hlt)
  omega

/-- Where no client has left before one, none has left before those before it. -/
theorem reapedAt_eq_of_le (hle : i ≤ j) (h : t.reapedAt j = j) : t.reapedAt i = i := by
  obtain ⟨d, rfl⟩ := Nat.exists_eq_add_of_le hle
  have hsplit : t.reapedAt (i + d) ≤ t.reapedAt i + d := by
    rw [reapedAt, List.take_add, List.countP_append]
    exact Nat.add_le_add_left (List.countP_le_length.trans (List.length_take_le d _)) _
  exact Nat.le_antisymm (t.reapedAt_le i) (by omega)

/-- No client moves down. -/
theorem placeAfter?_le {op : Operation} (h : t.placeAfter? i op = some i') : i' ≤ i := by
  cases op with
  | poll | update => exact Nat.le_of_eq (Option.some.inj h).symm
  | insert c =>
    rw [placeAfter?] at h
    split_ifs at h
    exact Option.some.inj h ▸ t.stayingAt_le i
  | reap =>
    rw [placeAfter?] at h
    split_ifs at h
    exact Option.some.inj h ▸ t.reapedAt_le i

/-- When a client comes, the clients that stay either keep their places, or step
    up if they stood behind the one that makes place. -/
theorem places_of_insert (t : ClientTable) (c : Client) :
    (∀ i i', t.placeAfter? i (.insert c) = some i' → i' = i) ∨
      ∃ e, ∀ i i', t.placeAfter? i (.insert c) = some i' →
        i < e ∧ i' = i ∨ e < i ∧ i' + 1 = i := by
  cases hat : t.evictedAt? with
  | none =>
    refine .inl fun i i' h => ?_
    rw [placeAfter?, stayingAt, hat] at h
    cases h
    rfl
  | some e =>
    refine .inr ⟨e, fun i i' h => ?_⟩
    rw [placeAfter?, stayingAt, hat] at h
    simp only [Option.some.injEq, Option.any_some, decide_eq_true_eq] at h
    split_ifs at h with hne hlt <;> cases h <;> omega

/-- A client that stays when others leave is open. -/
theorem exists_of_placeAfter?_reap (h : t.placeAfter? i .reap = some i') :
    ∃ c, t.get? i = some c ∧ c.closed = false ∧ t.reapedAt i = i' := by
  rw [placeAfter?] at h
  split_ifs at h with hany
  cases hget : t.get? i with
  | none =>
    rw [hget] at hany
    cases hany
  | some c =>
    rw [hget] at hany
    exact ⟨c, rfl, by simpa using hany, Option.some.inj h⟩

/-- Where no client has left before one that stays, the search begins where it
    began, or at the beginning if that was behind this one. -/
theorem next_reap (h : t.placeAfter? j .reap = some j) :
    t.reap.next = t.next ∨ t.reap.next = 0 ∧ j < t.next := by
  obtain ⟨c, hget, hopen, hsame⟩ := exists_of_placeAfter?_reap h
  have hinside : t.reapedAt j < t.reap.length :=
    (List.getElem?_eq_some_iff.1 (get?_reap hget hopen)).1
  have hnext : t.reap.next = if t.next < t.reap.length then t.next else 0 := rfl
  rw [hnext]
  split_ifs with hlt
  · exact .inl rfl
  · exact .inr ⟨rfl, by omega⟩

/-- A client that stays is found at its place, and is the same one unless it was
    made another one. -/
theorem get?_operate {c : Client} {op : Operation} (hget : t.get? i = some c)
    (hplace : t.placeAfter? i op = some i') :
    ∃ d, (t.operate op).get? i' = some d ∧ ((∀ e, op ≠ .update i e) → d = c) := by
  cases op with
  | poll isReady =>
    cases hplace
    refine ⟨c, ?_, fun _ => rfl⟩
    rw [ClientTable.operate]
    cases t.ready? isReady <;> exact hget
  | update l d =>
    cases hplace
    rcases eq_or_ne l i with rfl | hne
    · have hl : l < t.length := (List.getElem?_eq_some_iff.1 hget).1
      exact ⟨d, List.getElem?_set_self hl, fun h => absurd rfl (h d)⟩
    · exact ⟨c, (List.getElem?_set_ne hne).trans hget, fun _ => rfl⟩
  | insert d =>
    rw [placeAfter?] at hplace
    split_ifs at hplace with hspared
    cases hplace
    exact ⟨c, get?_insert hget hspared d, fun _ => rfl⟩
  | reap =>
    obtain ⟨d, hget', hopen, rfl⟩ := exists_of_placeAfter?_reap hplace
    rw [hget] at hget'
    cases hget'
    exact ⟨c, get?_reap hget hopen, fun _ => rfl⟩

/-- Different clients stay at different places. -/
theorem placeAfter?_ne {op : Operation} (hne : i ≠ j) (hj : t.placeAfter? j op = some j')
    (hi : t.placeAfter? i op = some i') : i' ≠ j' := by
  cases op with
  | poll | update =>
    cases hi
    cases hj
    exact hne
  | insert c =>
    rcases t.places_of_insert c with hplaces | ⟨e, hplaces⟩
    · rw [hplaces i i' hi, hplaces j j' hj]
      exact hne
    · have := hplaces i i' hi
      have := hplaces j j' hj
      omega
  | reap =>
    obtain ⟨c, hgetj, hopenj, rfl⟩ := exists_of_placeAfter?_reap hj
    obtain ⟨d, hgeti, hopeni, rfl⟩ := exists_of_placeAfter?_reap hi
    rcases Nat.lt_or_gt_of_ne hne with hlt | hgt
    · exact Nat.ne_of_lt (reapedAt_lt hgeti hopeni hlt)
    · exact Nat.ne_of_gt (reapedAt_lt hgetj hopenj hgt)

/-- A client that leaves has no turn then. -/
theorem turn_eq_zero_of_leaves {op : Operation} (h : t.placeAfter? i op = none) :
    t.turn i op = 0 := by
  cases op with
  | poll | update => cases h
  | insert | reap => rfl

end ClientTable

/-! ## The loop -/

namespace Server

variable {s : Server} {w : Waiting} {e : Event}

/-- In a step, the loop does nothing to the table, or lets a client come, or
    chooses a ready client and makes another one of it. Then the clients that
    are done with leave. -/
theorem step_eq_operateAll (h : s.MayHandle w e) (host : Host) (now : Nat) :
    ∃ ops, (s.step host now e).1.clients = s.clients.operateAll (ops ++ [.reap]) ∧
      (ops = [] ∨ (∃ peer, ops = [.insert (Client.accepted peer now)]) ∨
        ∃ i d, s.clients.ready? (fun c => (w.transfer? c).isSome) = some i ∧
          ops = [.poll fun c => (w.transfer? c).isSome, .update i d]) := by
  cases h with
  | tick => exact ⟨[], rfl, .inl rfl⟩
  | @datagram packet peer =>
    refine ⟨[], ?_, .inl rfl⟩
    exact congrArg ClientTable.reap (clients_handleDatagram s host packet peer)
  | @connection peer => exact ⟨[.insert (Client.accepted peer now)], rfl, .inr (.inl ⟨peer, rfl⟩)⟩
  | @service i c t hready hget ht =>
    obtain ⟨-, d, hd⟩ := serve_frame host now t hget
    refine ⟨_, ?_, .inr (.inr ⟨i, d, hready, rfl⟩)⟩
    rw [List.cons_append, List.singleton_append, ClientTable.operateAll, List.foldl_cons,
      ClientTable.operate, hready]
    exact congrArg ClientTable.reap hd

/-- Whatever a server handles, its table keeps its capacity and is never
    overfull. -/
theorem Becomes.clients_sound {s' : Server} (h : s.Becomes s') (hsound : s.clients.Sound) :
    s'.clients.Sound ∧ s'.clients.capacity = s.clients.capacity := by
  induction h with
  | refl => exact ⟨hsound, rfl⟩
  | step _ host now hchosen _ ih =>
    obtain ⟨ops, hops, -⟩ := step_eq_operateAll hchosen host now
    rw [hops]
    exact ⟨ih.1.operateAll _, (ClientTable.capacity_operateAll _ _).trans ih.2⟩

end Server

end SnmpAgent
