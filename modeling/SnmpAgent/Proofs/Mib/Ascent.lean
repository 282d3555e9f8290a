import SnmpAgent.Proofs.Mib.Building
import SnmpAgent.Proofs.Oid.Order

/-!
# Ascending names

A table accepts a name only above all others, so the names of a store ascend.
Counting the entries below a name of the store, or not above it, then gives
the position of that name, or the next one.

* `OidTable.Ascending`: names ascend;
* `OidTable.Ascending.lt_lowerBound_iff`, `OidTable.Ascending.lt_upperBound_iff`:
  what stands before the ends of searches for a name;
* `OidTable.Ascending.lowerBound_eq`, `OidTable.Ascending.upperBound_eq`: where
  searches for a name of the table end;
* `MibStore.ascending_of_build`: the names of every store that was built ascend;
* `MibStore.findAtOrBelow?_eq`: where a search for a name of the store ends.
-/

namespace SnmpAgent

/-! ## Tables -/

namespace OidTable

variable {α : Type} {t t' : OidTable α} {oid oid' : Oid} {a : α} {i j : Nat}

/-- The names of a table ascend strictly. -/
def Ascending (t : OidTable α) : Prop := t.entries.Pairwise fun p q => p.1 < q.1

/-- Where names ascend, a name is above all of them exactly if it is above the
    last one. -/
theorem forall_lt_iff {β : Type} {name : β → Oid} {l : List β}
    (h : l.Pairwise fun x y => name x < name y) :
    (∀ x ∈ l, name x < oid) ↔ ¬∃ last ∈ l.getLast?, oid ≤ name last := by
  rcases List.eq_nil_or_concat' l with rfl | ⟨l, last, rfl⟩
  · simp
  · have hbefore : ∀ x ∈ l, name x < name last :=
      fun x hx => (List.pairwise_append.1 h).2.2 x hx last (List.mem_singleton_self last)
    constructor
    · rintro hall ⟨x, hx, hle⟩
      exact (hall x (List.mem_of_getLast? hx)).not_ge hle
    · intro hlast x hx
      have habove : name last < oid := not_le.1 fun hle => hlast ⟨last, by simp, hle⟩
      rcases List.mem_append.1 hx with hx | hx
      · exact (hbefore x hx).trans habove
      · exact List.mem_singleton.1 hx ▸ habove

/-- Appending an entry keeps the order: its name is above the last one, and so
    above all. -/
theorem Ascending.push (h : t.Ascending) (hpush : t.push oid a = .ok t') : t'.Ascending := by
  rw [OidTable.push] at hpush
  split_ifs at hpush with hfull hlast
  cases hpush
  refine List.pairwise_append.2 ⟨h, List.pairwise_singleton _ _, fun p hp q hq => ?_⟩
  obtain rfl := List.mem_singleton.1 hq
  refine (forall_lt_iff h).2 ?_ p hp
  rintro ⟨last, hmem, hle⟩
  exact hlast ((Option.any_eq_true _ _).2 ⟨last, hmem, decide_eq_true hle⟩)

/-- If a condition holds of all that stands before what satisfies it, a position
    is among the leading ones that satisfy it exactly if what stands there
    does. -/
theorem lt_length_takeWhile_iff {β : Type} {l : List β} {p : β → Bool}
    (h : l.Pairwise fun x y => p y → p x) {x : β} (hget : l[i]? = some x) :
    i < (l.takeWhile p).length ↔ p x := by
  induction l generalizing i with
  | nil => cases hget
  | cons y l ih =>
    obtain ⟨hy, hl⟩ := List.pairwise_cons.1 h
    by_cases hp : p y
    · rw [List.takeWhile_cons_of_pos hp, List.length_cons]
      cases i with
      | zero =>
        cases hget
        exact iff_of_true (Nat.succ_pos _) hp
      | succ i => exact Nat.succ_lt_succ_iff.trans (ih hl hget)
    · -- Nothing satisfies the condition, since the first one does not.
      rw [List.takeWhile_cons_of_neg hp]
      refine iff_of_false (Nat.not_lt_zero _) fun hx => hp ?_
      rcases List.mem_cons.1 (List.mem_of_getElem? hget) with rfl | hmem
      · exact hx
      · exact hy x hmem hx

/-- Where names ascend, all before an entry below a name are below it, too. -/
theorem Ascending.pairwise_lt (h : t.Ascending) (oid : Oid) :
    t.entries.Pairwise fun p q => decide (q.1 < oid) → decide (p.1 < oid) :=
  h.imp fun hlt hq => decide_eq_true (hlt.trans (of_decide_eq_true hq))

/-- Where names ascend, all before an entry not above a name are not above it,
    either. -/
theorem Ascending.pairwise_le (h : t.Ascending) (oid : Oid) :
    t.entries.Pairwise fun p q => decide (q.1 ≤ oid) → decide (p.1 ≤ oid) :=
  h.imp fun hlt hq => decide_eq_true (hlt.le.trans (of_decide_eq_true hq))

/-- Before the lower bound of a name stand the entries below it. -/
theorem Ascending.lt_lowerBound_iff (h : t.Ascending) (hget : t.get? i = some (oid', a)) :
    i < t.lowerBound oid ↔ oid' < oid :=
  (lt_length_takeWhile_iff (h.pairwise_lt oid) hget).trans decide_eq_true_iff

/-- Before the upper bound of a name stand the entries not above it. -/
theorem Ascending.lt_upperBound_iff (h : t.Ascending) (hget : t.get? i = some (oid', a)) :
    i < t.upperBound oid ↔ oid' ≤ oid :=
  (lt_length_takeWhile_iff (h.pairwise_le oid) hget).trans decide_eq_true_iff

/-- Positions are ordered as the names at them are. -/
theorem Ascending.lt_iff (h : t.Ascending) {b : α} (hi : t.get? i = some (oid, a))
    (hj : t.get? j = some (oid', b)) : i < j ↔ oid < oid' := by
  obtain ⟨hi, hpi⟩ := List.getElem?_eq_some_iff.1 hi
  obtain ⟨hj, hpj⟩ := List.getElem?_eq_some_iff.1 hj
  have hlt := List.pairwise_iff_getElem.1 h
  rcases Nat.lt_trichotomy i j with hij | rfl | hji
  · have hnames := hlt i j hi hj hij
    rw [hpi, hpj] at hnames
    exact iff_of_true hij hnames
  · cases hpi.symm.trans hpj
    exact iff_of_false (Nat.lt_irrefl i) (lt_irrefl oid)
  · have hnames := hlt j i hj hi hji
    rw [hpi, hpj] at hnames
    exact iff_of_false (Nat.lt_asymm hji) hnames.not_gt

/-- Below a name of the table stand the entries before it. -/
theorem Ascending.lowerBound_eq (h : t.Ascending) (hget : t.get? i = some (oid, a)) :
    t.lowerBound oid = i := by
  have hi : i < t.entries.length := (List.getElem?_eq_some_iff.1 hget).1
  have hle : t.lowerBound oid ≤ i :=
    Nat.le_of_not_lt fun hlt => lt_irrefl oid ((h.lt_lowerBound_iff hget).1 hlt)
  refine Nat.le_antisymm hle (Nat.le_of_not_lt fun hlt => ?_)
  -- What stands at the bound would be below the name, as it stands before it.
  obtain ⟨p, hp⟩ : ∃ p, t.get? (t.lowerBound oid) = some p :=
    ⟨_, List.getElem?_eq_getElem (hlt.trans hi)⟩
  exact Nat.lt_irrefl _ ((h.lt_lowerBound_iff hp).2 ((h.lt_iff hp hget).1 hlt))

/-- Not above a name of the table stand that entry and those before it. -/
theorem Ascending.upperBound_eq (h : t.Ascending) (hget : t.get? i = some (oid, a)) :
    t.upperBound oid = i + 1 := by
  have hlength : t.upperBound oid ≤ t.entries.length := (List.takeWhile_sublist _).length_le
  refine Nat.le_antisymm (Nat.le_of_not_lt fun hlt => ?_) ((h.lt_upperBound_iff hget).2 le_rfl)
  -- What stands behind the name would not be above it.
  obtain ⟨p, hp⟩ : ∃ p, t.get? (i + 1) = some p :=
    ⟨_, List.getElem?_eq_getElem (hlt.trans_le hlength)⟩
  exact ((h.lt_iff hget hp).1 (Nat.lt_succ_self i)).not_ge ((h.lt_upperBound_iff hp).1 hlt)

end OidTable

/-! ## Stores -/

namespace MibStore

/-- Entering instances keeps the order. -/
theorem ascending_foldlM_enter {s : Snapshot} {instances : List (Tag × Oid × Cell)}
    {table table' : OidTable Entry} (h : table.Ascending)
    (hfold : instances.foldlM (fun table (tag, oid, cell) => enter s table tag oid cell) table =
      .ok table') : table'.Ascending := by
  induction instances generalizing table with
  | nil =>
    cases hfold
    exact h
  | cons i instances ih =>
    obtain ⟨tag, oid, cell⟩ := i
    rw [List.foldlM_cons] at hfold
    obtain ⟨table₁, henter, hfold⟩ := except_bind_eq_ok.1 hfold
    obtain ⟨e, -, hpush⟩ := enter_eq_ok.1 henter
    exact ih (h.push hpush) hfold

/-- The names of a store that was built ascend. -/
theorem ascending_of_build {definitions : List Definition} {s : Snapshot} {capacity : Nat}
    {m : MibStore} (h : build definitions s capacity = .ok m) : m.table.Ascending := by
  obtain ⟨table, htable, h⟩ := except_bind_eq_ok.1 h
  cases h
  have hempty : (OidTable.empty capacity : OidTable Entry).Ascending := List.Pairwise.nil
  exact ascending_foldlM_enter hempty htable

/-- A search for a name of the store ends where it stands. -/
theorem findAtOrBelow?_eq {m : MibStore} (h : m.table.Ascending) {i : Nat} {oid : Oid} {e : Entry}
    (hentry : m.get? i = some (oid, e)) : m.findAtOrBelow? oid 0 = some i := by
  rw [findAtOrBelow?, candidate, h.lowerBound_eq hentry, Nat.zero_max, hentry]
  simp [Oid.startsWith]

end MibStore

end SnmpAgent
