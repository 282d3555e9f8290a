import SnmpAgent.Server.ClientTable
import Mathlib.Data.Prod.Lex
import Mathlib.Data.List.MinMax

/-!
# Who makes place

When the table of clients is full, the first client of the least *rank* makes
place for a new one. Closed clients rank below open ones, and clients of the
same kind by the instant of the last transfer. Since clients are only ever
appended and taken out, the table stays in the order in which they came.

* `Client.rank`: the rank; `ClientTable.leastActive?_eq_argmin`: the client that
  makes place is the first of the least rank;
* `ClientTable.Yields`: which client makes place, told without a search;
* `ClientTable.Orderly`, `ClientTable.Orderly.perform`: what every action
  preserves;
* `ClientTable.orderly_after`: capacity, order and eviction after any actions.
-/

namespace SnmpAgent

/-! ## The rank -/

namespace Client

variable {c d : Client}

/-- The rank by which clients make place: closed ones first, then by the last
    transfer. -/
def rank (c : Client) : Bool ×ₗ Nat := toLex (!c.closed, c.lastActivity)

theorem rank_lt_iff : c.rank < d.rank ↔ c.closed = true ∧ d.closed = false ∨
    c.closed = d.closed ∧ c.lastActivity < d.lastActivity := by
  rw [rank, rank, Prod.Lex.toLex_lt_toLex]
  cases c.closed <;> cases d.closed <;> simp

theorem yieldsBefore_iff : c.yieldsBefore d ↔ c.rank < d.rank := by
  simp [yieldsBefore, rank_lt_iff]

/-- Where an open client has the least rank, all others are open. -/
theorem closed_of_rank_le (h : c.rank ≤ d.rank) (hclosed : d.closed) : c.closed := by
  by_contra hopen
  exact not_lt_of_ge h (rank_lt_iff.2 (.inl ⟨hclosed, Bool.eq_false_iff.2 hopen⟩))

/-- Clients of the same kind rank by the last transfer. -/
theorem lastActivity_le_of_rank_le (h : c.rank ≤ d.rank) (hkind : d.closed = c.closed) :
    c.lastActivity ≤ d.lastActivity :=
  Nat.le_of_not_lt fun hlt => not_lt_of_ge h (rank_lt_iff.2 (.inr ⟨hkind, hlt⟩))

theorem lastActivity_lt_of_rank_lt (h : c.rank < d.rank) (hkind : d.closed = c.closed) :
    c.lastActivity < d.lastActivity := by
  rcases rank_lt_iff.1 h with ⟨hclosed, hopen⟩ | ⟨-, hlt⟩
  · rw [hkind, hclosed] at hopen
    cases hopen
  · exact hlt

end Client

namespace ClientTable

variable {t : ClientTable} {c d : Client}

/-! ## Making place -/

/-- The client that makes place is the first one of the least rank. -/
theorem leastActive?_eq_argmin (cs : List Client) : leastActive? cs = cs.argmin Client.rank := by
  cases cs with
  | nil => rfl
  | cons c cs =>
    rw [leastActive?, List.argmin, List.foldl_cons]
    change some _ = cs.foldl _ (some c)
    rw [List.foldl_hom some]
    intro least d
    simp only [List.argAux, ← apply_ite, Client.yieldsBefore_iff]

/-- A client that makes place stands between those `before` and those `after`
    it. -/
structure Yields (t : ClientTable) (before : List Client) (d : Client) (after : List Client) :
    Prop where
  clients : t.clients = before ++ d :: after
  /-- It is closed if any client is. -/
  closed : ∀ e ∈ t.clients, e.closed → d.closed
  /-- None of its kind was longer without a transfer. -/
  least : ∀ e ∈ t.clients, e.closed = d.closed → d.lastActivity ≤ e.lastActivity
  /-- None of its kind that came before it was without one for as long. -/
  first : ∀ e ∈ before, e.closed = d.closed → d.lastActivity < e.lastActivity

/-- The search for the client that makes place finds it. -/
theorem yields_of_leastActive? (h : leastActive? t.clients = some d) :
    ∃ before after, t.Yields before d after ∧ t.clients.erase d = before ++ after := by
  rw [leastActive?_eq_argmin, List.argmin_eq_some_iff] at h
  obtain ⟨hmem, hle, hfirst⟩ := h
  obtain ⟨before, after, hnot, hclients, herase⟩ := List.exists_erase_eq hmem
  have hbefore : ∀ e ∈ before, d.rank < e.rank := by
    intro e he
    by_contra hge
    have hidx := hfirst e (hclients ▸ List.mem_append_left _ he) (le_of_not_gt hge)
    rw [hclients, List.idxOf_append_of_mem he, List.idxOf_append_of_notMem hnot,
      List.idxOf_cons_self] at hidx
    exact absurd (List.idxOf_lt_length_of_mem he) (Nat.not_lt_of_le hidx)
  exact ⟨before, after, ⟨hclients, fun e he => Client.closed_of_rank_le (hle e he),
    fun e he => Client.lastActivity_le_of_rank_le (hle e he),
    fun e he => Client.lastActivity_lt_of_rank_lt (hbefore e he)⟩, herase⟩

/-- How a table takes in a client: who makes place, and which clients there are
    then. -/
inductive TakesIn (t : ClientTable) (c : Client) : Option Client → List Client → Prop where
  -- There is room: the client is appended, and none makes place.
  | room (hroom : t.length < t.capacity) : TakesIn t c none (t.clients ++ [c])
  -- The table is full: exactly one client makes place, and the others stay in
  -- order.
  | full (hpos : 0 < t.capacity) (hfull : t.length = t.capacity) {before : List Client} {d : Client}
      {after : List Client} (hyields : t.Yields before d after) :
      TakesIn t c (some d) (before ++ after ++ [c])
  -- There is no room for any client: the table stays empty.
  | never (hzero : t.capacity = 0) (hnil : t.clients = []) : TakesIn t c none []

/-- A table that is not overfull takes in a client so. -/
theorem takesIn_insert (h : t.length ≤ t.capacity) (c : Client) :
    t.TakesIn c t.evicted? (t.insert c).clients := by
  rw [insert, staying, evicted?]
  rcases Nat.lt_or_eq_of_le h with hroom | hfull
  · rw [if_neg (Nat.not_le_of_lt hroom)]
    dsimp only
    rw [if_neg (Nat.ne_of_gt (Nat.zero_lt_of_lt hroom))]
    exact .room hroom
  · rw [if_pos (Nat.le_of_eq hfull.symm)]
    cases hleast : leastActive? t.clients with
    | none =>
      -- A full table without clients has no room for any.
      rw [leastActive?_eq_argmin, List.argmin_eq_none] at hleast
      rw [length, hleast, List.length_nil] at hfull
      dsimp only
      rw [if_pos hfull.symm, hleast]
      exact .never hfull.symm hleast
    | some d =>
      obtain ⟨before, after, hyields, herase⟩ := yields_of_leastActive? hleast
      have hpos : 0 < t.capacity := by
        rw [← hfull, length, hyields.clients, List.length_append, List.length_cons]
        omega
      dsimp only
      rw [if_neg (Nat.ne_of_gt hpos), herase]
      exact .full hpos hfull hyields

/-- There are never more clients than there is room for. -/
theorem TakesIn.length_le {d? : Option Client} {cs : List Client} (h : t.TakesIn c d? cs) :
    cs.length ≤ t.capacity := by
  cases h with
  | room hroom =>
    rw [List.length_append]
    exact hroom
  | full hpos hfull hyields =>
    rw [length, hyields.clients] at hfull
    simp at hfull ⊢
    omega
  | never => exact Nat.zero_le _

/-- The clients stay in order, and the new one comes last. -/
theorem TakesIn.sublist {d? : Option Client} {cs : List Client} (h : t.TakesIn c d? cs) :
    cs.Sublist (t.clients ++ [c]) := by
  cases h with
  | room => exact .refl _
  | full hpos hfull hyields =>
    rw [hyields.clients]
    exact .append (.append (.refl _) (List.sublist_cons_self _ _)) (.refl _)
  | never => exact List.nil_sublist _

/-! ## Actions -/

/-- What is done to a table: a client comes, something is transferred with the
    one at a position, that one is done with, or all that are done with are
    taken out. -/
inductive Action where
  | insert (c : Client)
  | touch (i now : Nat)
  | close (i : Nat)
  | reap

/-- The table after one action. -/
def perform (t : ClientTable) : Action → ClientTable
  | .insert c => t.insert c
  | .touch i now =>
    { t with clients := t.clients.modify i fun c => { c with lastActivity := now } }
  | .close i => { t with clients := t.clients.modify i Client.close }
  | .reap => t.reap

/-- The table after some actions. -/
def after (t : ClientTable) (actions : List Action) : ClientTable := actions.foldl perform t

/-- The peers that came, in this order. -/
def Action.peers (actions : List Action) : List SocketAddr :=
  actions.filterMap fun
    | .insert c => some c.peer
    | _ => none

/-- A table has kept its capacity, and the order in which the clients came. -/
structure Orderly (capacity : Nat) (came : List SocketAddr) (t : ClientTable) : Prop where
  capacity_eq : t.capacity = capacity
  length_le : t.length ≤ capacity
  order : (t.clients.map (·.peer)).Sublist came

section

variable {t' : ClientTable} {capacity : Nat} {came : List SocketAddr}

theorem orderly_empty (capacity : Nat) : (empty capacity).Orderly capacity [] :=
  ⟨rfl, Nat.zero_le _, .slnil⟩

/-- Taking clients out leaves the others in order. -/
theorem Orderly.of_sublist (h : t.Orderly capacity came) (hcapacity : t'.capacity = t.capacity)
    (hpeers : (t'.clients.map (·.peer)).Sublist (t.clients.map (·.peer))) :
    t'.Orderly capacity came where
  capacity_eq := hcapacity.trans h.capacity_eq
  length_le := by
    have hle := hpeers.length_le
    rw [List.length_map, List.length_map] at hle
    exact hle.trans h.length_le
  order := hpeers.trans h.order

/-- So does a change of one client that keeps its peer. -/
theorem Orderly.modify (h : t.Orderly capacity came) (i : Nat) {f : Client → Client}
    (hf : ∀ c, (f c).peer = c.peer) :
    ({ t with clients := t.clients.modify i f } : ClientTable).Orderly capacity came := by
  have hpeers : (t.clients.modify i f).map (·.peer) = t.clients.map (·.peer) := by
    ext1 j
    by_cases hij : i = j <;> simp [hij, Function.comp_def, hf]
  exact h.of_sublist rfl (hpeers ▸ .refl _)

/-- So does a new client, which comes last. -/
theorem Orderly.insert (h : t.Orderly capacity came) (c : Client) :
    (t.insert c).Orderly capacity (came ++ [c.peer]) := by
  obtain ⟨rfl, hlength, horder⟩ := h
  have htakes := takesIn_insert hlength c
  refine ⟨rfl, htakes.length_le, (htakes.sublist.map _).trans ?_⟩
  rw [List.map_append]
  exact horder.append (.refl _)

/-- That a client came which has gone is not seen. -/
theorem Orderly.mono {came' : List SocketAddr} (h : t.Orderly capacity came)
    (hcame : came.Sublist came') : t.Orderly capacity came' :=
  ⟨h.capacity_eq, h.length_le, h.order.trans hcame⟩

/-- Every action keeps the capacity and the order. -/
theorem Orderly.perform (h : t.Orderly capacity came) (a : Action) :
    (t.perform a).Orderly capacity (came ++ Action.peers [a]) := by
  cases a with
  | insert c => exact h.insert c
  | touch i now =>
    refine Orderly.mono ?_ (List.sublist_append_left came _)
    exact h.modify i fun _ => rfl
  | close i =>
    refine Orderly.mono ?_ (List.sublist_append_left came _)
    exact h.modify i fun _ => rfl
  | reap =>
    refine Orderly.mono ?_ (List.sublist_append_left came _)
    exact h.of_sublist rfl (List.filter_sublist.map _)

theorem Orderly.after (h : t.Orderly capacity came) (actions : List Action) :
    (t.after actions).Orderly capacity (came ++ Action.peers actions) := by
  induction actions generalizing t came with
  | nil => simpa [ClientTable.after, Action.peers] using h
  | cons a actions ih =>
    have hpeers : Action.peers (a :: actions) = Action.peers [a] ++ Action.peers actions := by
      rw [Action.peers, ← List.singleton_append, List.filterMap_append]
      rfl
    rw [hpeers, ← List.append_assoc]
    exact ih (h.perform a)

end

/-! ## All actions -/

/-- After any actions a table holds no more clients than it has room for, in the
    order in which they came, and takes in one more without ever removing two,
    or one where there is room. The clients that are taken out when they are
    done with are the closed ones. -/
theorem orderly_after (capacity : Nat) (actions : List Action) :
    ((empty capacity).after actions).Orderly capacity (Action.peers actions) ∧
    (∀ c, ((empty capacity).after actions).TakesIn c ((empty capacity).after actions).evicted?
      (((empty capacity).after actions).insert c).clients) ∧
    ((empty capacity).after actions).reap.clients =
      ((empty capacity).after actions).clients.filter (!·.closed) := by
  have horderly := (orderly_empty capacity).after actions
  refine ⟨horderly, fun c => takesIn_insert ?_ c, rfl⟩
  rw [horderly.capacity_eq]
  exact horderly.length_le

/-- A closed client makes place, although another one was longer without a
    transfer. -/
example : (((empty 2).after [.insert (.accepted (.v4 ⟨127, 0, 0, 1⟩ 40001) 10),
    .insert (.accepted (.v4 ⟨127, 0, 0, 1⟩ 40002) 20), .close 1,
    .insert (.accepted (.v4 ⟨127, 0, 0, 1⟩ 40003) 30)]).clients.map (·.lastActivity)) =
      [10, 30] := by
  decide +kernel

end ClientTable

end SnmpAgent
