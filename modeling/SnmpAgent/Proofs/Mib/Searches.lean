import SnmpAgent.Proofs.Mib.Ascent
import Mathlib.Order.Bounds.Basic

/-!
# Searching tables

A table is never sorted: that its names ascend rests on appending alone, as a
value that is replaced keeps its name. Where names ascend, the entries below a
name lead the table, and so do those not above it. So the positions that
searches end at are the numbers of these entries, whether the name stands in
the table, between its names, or outside of them.

* `OidTable.Change`, `OidTable.changed`: what may be done to a table;
* `OidTable.Orderly.changed`: after any changes a table is in order;
* `OidTable.exists_changed_eq`: every table in order comes of such changes;
* `OidTable.Ascending.lowerBound_eq_countP`,
  `OidTable.Ascending.upperBound_eq_countP`: searches count entries;
* `MibStore.findNext?_eq_some_iff`: the successor of a name;
* `OidTable.orderly_changed_and_searched`: pushes, searches and successors in
  every table that comes of changes.
-/

namespace SnmpAgent

/-- If a condition holds of all that stands before what satisfies it, then what
    satisfies it leads the list. -/
theorem takeWhile_eq_filter {α : Type} {l : List α} {p : α → Bool}
    (h : l.Pairwise fun x y => p y → p x) : l.takeWhile p = l.filter p := by
  induction l with
  | nil => rfl
  | cons x l ih =>
    obtain ⟨hx, hl⟩ := List.pairwise_cons.1 h
    by_cases hp : p x
    · rw [List.takeWhile_cons_of_pos hp, List.filter_cons_of_pos hp, ih hl]
    · rw [List.takeWhile_cons_of_neg hp, List.filter_cons_of_neg hp]
      exact (List.filter_eq_nil_iff.2 fun y hy hpy => hp (hx y hy hpy)).symm

namespace OidTable

variable {α : Type} {t t' : OidTable α} {oid oid' : Oid} {a : α} {i j : Nat}

/-! ## Searches -/

/-- The lower bound of a name is the number of entries below it. -/
theorem Ascending.lowerBound_eq_countP (h : t.Ascending) (oid : Oid) :
    t.lowerBound oid = t.entries.countP (·.1 < oid) := by
  rw [lowerBound, takeWhile_eq_filter (h.pairwise_lt oid), List.countP_eq_length_filter]

/-- The upper bound of a name is the number of entries not above it. -/
theorem Ascending.upperBound_eq_countP (h : t.Ascending) (oid : Oid) :
    t.upperBound oid = t.entries.countP (·.1 ≤ oid) := by
  rw [upperBound, takeWhile_eq_filter (h.pairwise_le oid), List.countP_eq_length_filter]

/-- A name stands at only one position. -/
theorem Ascending.eq_of_get? (h : t.Ascending) {b : α} (hi : t.get? i = some (oid, a))
    (hj : t.get? j = some (oid, b)) : i = j :=
  (h.lowerBound_eq hi).symm.trans (h.lowerBound_eq hj)

/-- A position is found for a name exactly if the entry of that name stands
    there. -/
theorem Ascending.position?_eq_some_iff (h : t.Ascending) :
    t.position? oid = some i ↔ ∃ a, t.get? i = some (oid, a) := by
  rw [position?]
  constructor
  · intro hposition
    split_ifs at hposition with hany
    cases hposition
    obtain ⟨⟨oid', a⟩, hget, heq⟩ := (Option.any_eq_true _ _).1 hany
    obtain rfl := of_decide_eq_true heq
    exact ⟨a, hget⟩
  · rintro ⟨a, hget⟩
    simp [h.lowerBound_eq hget, hget]

/-- The names of the entries above a name. -/
def above (t : OidTable α) (oid : Oid) : Set Oid := {o | oid < o ∧ ∃ i a, t.get? i = some (o, a)}

/-- What is above a name does not stand before its upper bound. -/
theorem Ascending.upperBound_le (h : t.Ascending) (hget : t.get? i = some (oid', a))
    (hlt : oid < oid') : t.upperBound oid ≤ i :=
  Nat.le_of_not_lt fun hi => hlt.not_ge ((h.lt_upperBound_iff hget).1 hi)

/-- At the upper bound of a name stands the least name above it, if there is an
    entry. -/
theorem Ascending.isLeast_above (h : t.Ascending)
    (hget : t.get? (t.upperBound oid) = some (oid', a)) : IsLeast (t.above oid) oid' := by
  have habove : oid < oid' := not_le.1 fun hle =>
    Nat.lt_irrefl _ ((h.lt_upperBound_iff hget).2 hle)
  refine ⟨⟨habove, _, a, hget⟩, ?_⟩
  rintro o ⟨ho, j, b, hj⟩
  exact not_lt.1 fun hlt => Nat.not_lt.2 (h.upperBound_le hj ho) ((h.lt_iff hj hget).2 hlt)

end OidTable

namespace MibStore

variable {m : MibStore} {oid : Oid}

/-- The successor that is found for a name is the least name above it. -/
theorem findNext?_eq_some_iff (h : m.table.Ascending) {i : Nat} : m.findNext? oid = some i ↔
    ∃ next e, m.get? i = some (next, e) ∧ IsLeast (m.table.above oid) next := by
  have hentry (hlt : m.table.upperBound oid < m.length) :
      ∃ p, m.get? (m.table.upperBound oid) = some p := ⟨_, List.getElem?_eq_getElem hlt⟩
  rw [findNext?]
  constructor
  · intro hnext
    split_ifs at hnext with hlt
    cases hnext
    obtain ⟨⟨next, e⟩, hget⟩ := hentry hlt
    exact ⟨next, e, hget, h.isLeast_above hget⟩
  · rintro ⟨next, e, hget, hleast⟩
    obtain ⟨hi, -⟩ := List.getElem?_eq_some_iff.1 hget
    have hlt : m.table.upperBound oid < m.length :=
      Nat.lt_of_le_of_lt (h.upperBound_le hget hleast.1.1) hi
    obtain ⟨⟨next', e'⟩, hget'⟩ := hentry hlt
    -- Both are the least name above, and a name stands at only one position.
    obtain rfl : next' = next := (h.isLeast_above hget').unique hleast
    rw [if_pos hlt, h.eq_of_get? hget' hget]

/-- No successor is found for a name exactly if there is no name above it. -/
theorem findNext?_eq_none_iff (h : m.table.Ascending) :
    m.findNext? oid = none ↔ m.table.above oid = ∅ := by
  constructor
  · intro hnone
    refine Set.eq_empty_iff_forall_notMem.2 ?_
    rintro o ⟨ho, i, e, hget⟩
    obtain ⟨hi, -⟩ := List.getElem?_eq_some_iff.1 hget
    have hlt : m.table.upperBound oid < m.length :=
      Nat.lt_of_le_of_lt (h.upperBound_le hget ho) hi
    rw [findNext?, if_pos hlt] at hnone
    cases hnone
  · intro hempty
    cases hnext : m.findNext? oid with
    | none => rfl
    | some i =>
      obtain ⟨next, e, -, hleast⟩ := (findNext?_eq_some_iff h).1 hnext
      exact absurd hleast.1 (hempty ▸ Set.notMem_empty next)

end MibStore

/-! ## Changes -/

namespace OidTable

variable {α : Type} {t t' : OidTable α} {oid : Oid} {a : α} {fault : MibFault}

/-- A push is refused where the table is full, and else where the name is not
    above the last one. -/
theorem push_eq_error_iff : t.push oid a = .error fault ↔
    t.length = t.capacity ∧ fault = .tableOverflow t.capacity ∨
      t.length ≠ t.capacity ∧ (∃ last, t.entries.getLast? = some last ∧ oid ≤ last.1) ∧
        fault = .outOfOrder := by
  have hlast : t.entries.getLast?.any (fun last => oid ≤ last.1) ↔
      ∃ last, t.entries.getLast? = some last ∧ oid ≤ last.1 := by
    simp only [Option.any_eq_true, decide_eq_true_eq]
  rw [← hlast, push]
  split_ifs with hfull hany
  · simp only [hfull, true_and, not_true, false_and, or_false, Except.error.injEq, ne_eq, eq_comm]
  · simp only [hfull, hany, true_and, not_false_eq_true, false_and, false_or, Except.error.injEq,
      ne_eq, eq_comm]
  · simp only [hfull, hany, false_and, and_false, or_false, Bool.false_eq_true]

/-- One thing that may be done to a table: an entry is pushed, or what stands at
    a position is replaced. -/
inductive Change (α : Type) where
  | push (oid : Oid) (a : α)
  | set (i : Nat) (a : α)

/-- The table after a change. A push that is refused leaves it as it is. -/
def change (t : OidTable α) : Change α → OidTable α
  | .push oid a =>
    match t.push oid a with
    | .ok t' => t'
    | .error _ => t
  | .set i a => t.set i a

/-- The table after some changes, one after another. -/
def changed (t : OidTable α) (changes : List (Change α)) : OidTable α := changes.foldl change t

/-- A table is in order: its names ascend, and there are no more entries than it
    may hold. -/
structure Orderly (t : OidTable α) : Prop where
  ascending : t.Ascending
  length_le : t.length ≤ t.capacity

theorem orderly_empty (capacity : Nat) : (empty capacity : OidTable α).Orderly :=
  ⟨List.Pairwise.nil, Nat.zero_le _⟩

theorem Orderly.push (h : t.Orderly) (hpush : t.push oid a = .ok t') : t'.Orderly := by
  refine ⟨h.ascending.push hpush, ?_⟩
  obtain ⟨hroom, rfl⟩ := entries_of_push hpush
  have hlength := Nat.lt_of_le_of_ne h.length_le hroom
  rw [length] at hlength ⊢
  rw [List.length_append, List.length_singleton]
  exact hlength

/-- A value that is replaced keeps its name. -/
theorem map_fst_set (t : OidTable α) (i : Nat) (a : α) :
    (t.set i a).entries.map (·.1) = t.entries.map (·.1) := by
  refine List.ext_getElem? fun j => ?_
  rw [set, List.getElem?_map, List.getElem?_map, List.getElem?_modify]
  cases t.entries[j]? with
  | none => rfl
  | some p =>
    by_cases hij : i = j
    · simp [hij]
    · simp [hij]

theorem Orderly.set (h : t.Orderly) (i : Nat) (a : α) : (t.set i a).Orderly := by
  have hnames := t.map_fst_set i a
  constructor
  · rw [Ascending, ← List.pairwise_map, hnames, List.pairwise_map]
    exact h.ascending
  · rw [length, ← List.length_map (·.1), hnames, List.length_map]
    exact h.length_le

/-- Every change leaves a table in order, with the same capacity. -/
theorem Orderly.change (h : t.Orderly) (c : Change α) :
    (t.change c).Orderly ∧ (t.change c).capacity = t.capacity := by
  cases c with
  | push oid a =>
    rw [OidTable.change]
    cases hpush : t.push oid a with
    | ok t' =>
      obtain ⟨-, rfl⟩ := entries_of_push hpush
      exact ⟨h.push hpush, rfl⟩
    | error fault => exact ⟨h, rfl⟩
  | set i a => exact ⟨h.set i a, rfl⟩

/-- Any changes leave a table in order, with the same capacity. -/
theorem Orderly.changed (h : t.Orderly) (changes : List (Change α)) :
    (t.changed changes).Orderly ∧ (t.changed changes).capacity = t.capacity := by
  induction changes generalizing t with
  | nil => exact ⟨h, rfl⟩
  | cons c changes ih =>
    obtain ⟨hc, hcapacity⟩ := h.change c
    obtain ⟨hchanged, hcapacity'⟩ := ih hc
    exact ⟨hchanged, hcapacity'.trans hcapacity⟩

/-- A name is accepted if there is room for it and it is above all others. -/
theorem push_eq_ok (hroom : t.length < t.capacity) (habove : ∀ p ∈ t.entries, p.1 < oid) (a : α) :
    t.push oid a = .ok { t with entries := t.entries ++ [(oid, a)] } := by
  cases hpush : t.push oid a with
  | ok t' =>
    obtain ⟨-, rfl⟩ := entries_of_push hpush
    rfl
  | error fault =>
    rcases push_eq_error_iff.1 hpush with ⟨hfull, -⟩ | ⟨-, ⟨last, hlast, hle⟩, -⟩
    · exact absurd hfull hroom.ne
    · exact absurd hle (habove last (List.mem_of_getLast? hlast)).not_ge

/-- The entries of a table in order can be pushed behind each other. -/
theorem changed_push (capacity : Nat) (done todo : List (Oid × α))
    (h : (OidTable.mk (done ++ todo) capacity).Orderly) :
    (OidTable.mk done capacity).changed (todo.map fun p => .push p.1 p.2) =
      ⟨done ++ todo, capacity⟩ := by
  induction todo generalizing done with
  | nil => rw [List.append_nil]; rfl
  | cons p todo ih =>
    have hroom : done.length < capacity := by
      have hle : (done ++ p :: todo).length ≤ capacity := h.length_le
      rw [List.length_append, List.length_cons] at hle
      omega
    have habove : ∀ q ∈ done, q.1 < p.1 := fun q hq =>
      (List.pairwise_append.1 h.ascending).2.2 q hq p List.mem_cons_self
    rw [List.append_cons] at h ⊢
    rw [List.map_cons, changed, List.foldl_cons, OidTable.change,
      push_eq_ok (t := ⟨done, capacity⟩) hroom habove p.2]
    exact ih (done ++ [p]) h

/-- Every table in order comes of changes to the empty one. -/
theorem exists_changed_eq (h : t.Orderly) : ∃ changes, (empty t.capacity).changed changes = t :=
  ⟨_, changed_push t.capacity [] t.entries h⟩

/-! ## Order and searches -/

/-- Whatever was pushed onto a table or replaced in it, its names ascend and
    there are at most as many as it may hold. A push is refused exactly where
    the table is full or the name is not above the last one, and then the table
    stays as it is; any other push puts its entry behind all others. For every
    name, the bounds are the numbers of the entries below it and not above it, a
    position is found exactly where an entry has that name, and the successor in
    a store is the least name above it, if there is any. -/
theorem orderly_changed_and_searched :
    (∀ (α : Type) (capacity : Nat) (changes : List (Change α)) (oid : Oid),
      let t := (empty capacity).changed changes
      t.entries.Pairwise (fun p q => p.1 < q.1) ∧ t.length ≤ capacity ∧
      (∀ (a : α) (fault : MibFault), t.push oid a = .error fault ↔
        t.length = capacity ∧ fault = .tableOverflow capacity ∨
          t.length ≠ capacity ∧ (∃ last, t.entries.getLast? = some last ∧ oid ≤ last.1) ∧
            fault = .outOfOrder) ∧
      (∀ (a : α) (fault : MibFault), t.push oid a = .error fault → t.change (.push oid a) = t) ∧
      (∀ (a : α) (t' : OidTable α), t.push oid a = .ok t' →
        t.change (.push oid a) = t' ∧ t' = ⟨t.entries ++ [(oid, a)], capacity⟩) ∧
      t.lowerBound oid = t.entries.countP (·.1 < oid) ∧
      t.upperBound oid = t.entries.countP (·.1 ≤ oid) ∧
      ∀ i, t.position? oid = some i ↔ ∃ a, t.get? i = some (oid, a)) ∧
    ∀ (capacity : Nat) (changes : List (Change Entry)) (oid : Oid),
      let m : MibStore := ⟨(empty capacity).changed changes⟩
      (∀ i, m.findNext? oid = some i ↔ ∃ next e, m.get? i = some (next, e) ∧
        IsLeast {o | oid < o ∧ ∃ j e', m.get? j = some (o, e')} next) ∧
      (m.findNext? oid = none ↔ ∀ i o e, m.get? i = some (o, e) → o ≤ oid) := by
  constructor
  · intro α capacity changes oid t
    obtain ⟨horderly, hcapacity⟩ := (orderly_empty (α := α) capacity).changed changes
    have hcapacity : t.capacity = capacity := hcapacity
    have hascending : t.Ascending := horderly.ascending
    refine ⟨hascending, hcapacity ▸ horderly.length_le, fun a fault => ?_, fun a fault hpush => ?_,
      fun a t' hpush => ⟨?_, ?_⟩, hascending.lowerBound_eq_countP oid,
      hascending.upperBound_eq_countP oid, fun i => hascending.position?_eq_some_iff⟩
    · rw [push_eq_error_iff, hcapacity]
    · rw [OidTable.change, hpush]
    · rw [OidTable.change, hpush]
    · obtain ⟨-, rfl⟩ := entries_of_push hpush
      rw [hcapacity]
  · intro capacity changes oid m
    have hascending : m.table.Ascending :=
      ((orderly_empty (α := Entry) capacity).changed changes).1.ascending
    refine ⟨fun i => MibStore.findNext?_eq_some_iff hascending, ?_⟩
    rw [MibStore.findNext?_eq_none_iff hascending, Set.eq_empty_iff_forall_notMem]
    constructor
    · intro hnone i o e hget
      exact not_lt.1 fun hlt => hnone o ⟨hlt, i, e, hget⟩
    · rintro hle o ⟨ho, i, e, hget⟩
      exact ho.not_ge (hle i o e hget)

/-- A name between two others comes too late, but is searched for all the same. -/
example :
    let t := (empty 3).changed [.push ⟨[1, 3]⟩ "a", .push ⟨[1, 5]⟩ "b", .push ⟨[1, 4]⟩ "c"]
    t.entries = [(⟨[1, 3]⟩, "a"), (⟨[1, 5]⟩, "b")] ∧ t.lowerBound ⟨[1, 4]⟩ = 1 := by
  decide

end OidTable

end SnmpAgent
