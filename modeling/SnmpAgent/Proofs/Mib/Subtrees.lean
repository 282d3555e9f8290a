import SnmpAgent.Proofs.Mib.Searches
import SnmpAgent.Proofs.Oid.Subtrees

/-!
# Subtrees in tables

What lies beneath a name stands together in a table, and begins at the lower
bound of the name. So the entry there and its neighbour tell whether there is
an entry of that name, only one beneath it, several, or none.

* `OidTable.beneath`, `OidTable.subject?`: what lies beneath a name, and the
  entry that the name stands for, told by a look at all entries;
* `OidTable.Ascending.beneath_eq`, `OidTable.Ascending.startsWith_iff`: a
  subtree is a run of entries, and the positions of that run;
* `OidTable.Ascending.subject?_eq`: a look at two entries is enough;
* `OidTable.compare_total_and_beneath_contiguous`: the order of names, and
  subtrees in it and in tables.
-/

namespace SnmpAgent.OidTable

variable {α : Type} {t : OidTable α} {oid oid' : Oid} {a : α} {i : Nat}

/-- The entries whose names are a name or lie beneath it. -/
def beneath (t : OidTable α) (oid : Oid) : List (Oid × α) := t.entries.filter (·.1.startsWith oid)

/-- The entry that a name stands for: the one of that name, or else the only one
    beneath it. -/
def subject? (t : OidTable α) (oid : Oid) : Option (Oid × α) :=
  match t.entries.find? (·.1 = oid), t.beneath oid with
  | some p, _ => some p
  | none, [p] => some p
  | none, _ => none

/-! ## Subtrees -/

/-- The entries behind the lower bound of a name are not below it. -/
theorem Ascending.le_of_mem_drop (h : t.Ascending) {p : Oid × α}
    (hp : p ∈ t.entries.drop (t.lowerBound oid)) : oid ≤ p.1 := by
  obtain ⟨j, hj⟩ := List.mem_iff_getElem?.1 hp
  rw [List.getElem?_drop] at hj
  exact not_lt.1 fun hlt => Nat.not_lt.2 (Nat.le_add_right _ j) ((h.lt_lowerBound_iff hj).2 hlt)

/-- What lies beneath a name does not stand before its lower bound. -/
theorem Ascending.lowerBound_le (h : t.Ascending) (hget : t.get? i = some (oid', a))
    (hbeneath : oid'.startsWith oid) : t.lowerBound oid ≤ i :=
  Nat.le_of_not_lt fun hi =>
    ((h.lt_lowerBound_iff hget).1 hi).not_ge (Oid.le_of_startsWith hbeneath)

/-- Behind the lower bound of a name, what lies beneath it leads. -/
theorem Ascending.pairwise_startsWith (h : t.Ascending) (oid : Oid) :
    (t.entries.drop (t.lowerBound oid)).Pairwise fun p q =>
      q.1.startsWith oid → p.1.startsWith oid := by
  refine (List.Pairwise.drop h).imp_of_mem fun {p q} hp _ hlt hbeneath => ?_
  exact Oid.startsWith_of_le (h.le_of_mem_drop hp) (le_of_lt hlt) hbeneath

/-- A subtree is a run of entries that begins at the lower bound of its root. -/
theorem Ascending.beneath_eq (h : t.Ascending) (oid : Oid) : t.beneath oid =
    (t.entries.drop (t.lowerBound oid)).takeWhile (·.1.startsWith oid) := by
  have hbefore : (t.entries.take (t.lowerBound oid)).filter (·.1.startsWith oid) = [] := by
    refine List.filter_eq_nil_iff.2 fun p hp hbeneath => ?_
    obtain ⟨j, hj, rfl⟩ := List.mem_take_iff_getElem.1 hp
    obtain ⟨hlt, hlength⟩ := Nat.lt_min.1 hj
    exact (h.lowerBound_le (List.getElem?_eq_getElem hlength) hbeneath).not_gt hlt
  calc t.beneath oid
      = (t.entries.take (t.lowerBound oid) ++ t.entries.drop (t.lowerBound oid)).filter
          (·.1.startsWith oid) := by rw [List.take_append_drop, beneath]
    _ = (t.entries.drop (t.lowerBound oid)).filter (·.1.startsWith oid) := by
        rw [List.filter_append, hbefore, List.nil_append]
    _ = (t.entries.drop (t.lowerBound oid)).takeWhile (·.1.startsWith oid) :=
        (takeWhile_eq_filter (h.pairwise_startsWith oid)).symm

/-- A subtree does not reach beyond the end of the table. -/
theorem Ascending.lowerBound_add_le (h : t.Ascending) (oid : Oid) :
    t.lowerBound oid + (t.beneath oid).length ≤ t.length := by
  have hstart : t.lowerBound oid ≤ t.length := (List.takeWhile_sublist _).length_le
  have hlength : (t.beneath oid).length ≤ t.length - t.lowerBound oid := by
    rw [h.beneath_eq oid, length, ← List.length_drop]
    exact (List.takeWhile_sublist _).length_le
  omega

/-- The positions of a subtree follow each other from the lower bound of its
    root on. -/
theorem Ascending.startsWith_iff (h : t.Ascending) (hget : t.get? i = some (oid', a)) :
    oid'.startsWith oid ↔
      t.lowerBound oid ≤ i ∧ i < t.lowerBound oid + (t.beneath oid).length := by
  rw [h.beneath_eq oid]
  have hrun (hi : t.lowerBound oid ≤ i) : i - t.lowerBound oid <
      ((t.entries.drop (t.lowerBound oid)).takeWhile (·.1.startsWith oid)).length ↔
        oid'.startsWith oid := by
    have hbehind : (t.entries.drop (t.lowerBound oid))[i - t.lowerBound oid]? =
        some (oid', a) := by
      rw [List.getElem?_drop, Nat.add_sub_cancel' hi]
      exact hget
    exact lt_length_takeWhile_iff (h.pairwise_startsWith oid) hbehind
  constructor
  · intro hbeneath
    have hi := h.lowerBound_le hget hbeneath
    exact ⟨hi, (Nat.sub_lt_iff_lt_add' hi).1 ((hrun hi).2 hbeneath)⟩
  · rintro ⟨hi, hlt⟩
    exact (hrun hi).1 ((Nat.sub_lt_iff_lt_add' hi).2 hlt)

/-! ## What a name stands for -/

theorem drop_eq_cons {p : Oid × α} (hget : t.get? i = some p) :
    t.entries.drop i = p :: t.entries.drop (i + 1) := by
  obtain ⟨hi, rfl⟩ := List.getElem?_eq_some_iff.1 hget
  exact List.drop_eq_getElem_cons hi

theorem drop_eq_nil (hget : t.get? i = none) : t.entries.drop i = [] :=
  List.drop_eq_nil_of_le (List.getElem?_eq_none_iff.1 hget)

/-- If there is an entry of a name, it stands at the lower bound of the name. -/
theorem Ascending.find?_eq (h : t.Ascending) (oid : Oid) :
    t.entries.find? (·.1 = oid) = (t.get? (t.lowerBound oid)).filter (·.1 = oid) := by
  cases hfind : t.entries.find? (·.1 = oid) with
  | none =>
    refine (Option.filter_eq_none_iff.2 fun p hp => ?_).symm
    exact List.find?_eq_none.1 hfind p (List.mem_of_getElem? hp)
  | some p =>
    obtain ⟨i, hget⟩ := List.mem_iff_getElem?.1 (List.mem_of_find?_eq_some hfind)
    have hname : p.1 = oid := by simpa using List.find?_some hfind
    subst hname
    have hget : t.get? i = some p := hget
    rw [h.lowerBound_eq hget, hget, Option.filter_some, if_pos (decide_eq_true rfl)]

/-- The entry that a name stands for is found by a look at the lower bound of
    the name and at its neighbour: with anything else beneath the name, the
    neighbour lies beneath it. -/
theorem Ascending.subject?_eq (h : t.Ascending) (oid : Oid) : t.subject? oid =
    (t.get? (t.lowerBound oid)).filter fun p => p.1 = oid ∨ p.1.startsWith oid ∧
      ¬(t.get? (t.lowerBound oid + 1)).any (·.1.startsWith oid) := by
  rw [subject?, h.find?_eq oid, h.beneath_eq oid]
  cases hget : t.get? (t.lowerBound oid) with
  | none =>
    rw [drop_eq_nil hget]
    rfl
  | some p =>
    rw [drop_eq_cons hget, List.takeWhile_cons, Option.filter_some, Option.filter_some]
    by_cases hname : p.1 = oid
    · simp [hname]
    by_cases hbeneath : p.1.startsWith oid
    · cases hnext : t.get? (t.lowerBound oid + 1) with
      | none =>
        rw [drop_eq_nil hnext]
        simp [hname, hbeneath]
      | some q =>
        rw [drop_eq_cons hnext, List.takeWhile_cons]
        by_cases hq : q.1.startsWith oid <;> simp [hname, hbeneath, hq]
    · simp [hname, hbeneath]

/-! ## Order and subtrees -/

/-- The comparison of identifiers is a strict total order, in which an
    identifier equals only itself; where two of them part, the smaller
    sub-identifier decides, and a name comes before all others that lie beneath
    it, which are the names reached from it by a path. Between two names beneath
    a node there are only names beneath it. So in a table whose names ascend,
    the entries beneath a name are those at the positions from its lower bound
    on, as many as there are. -/
theorem compare_total_and_beneath_contiguous :
    (∀ a b c : Oid, (compare a b = .eq ↔ a = b) ∧ compare b a = (compare a b).swap ∧
      (compare a b = .lt → compare b c = .lt → compare a c = .lt) ∧
      (a < b ↔ compare a b = .lt) ∧ (a ≤ b ↔ compare a b ≠ .gt)) ∧
    (∀ (p : Oid) (x y : UInt32) (xs ys : List UInt32), x < y →
      compare (p.join (x :: xs)) (p.join (y :: ys)) = .lt) ∧
    (∀ p o : Oid, (o.startsWith p ↔ ∃ path, o = p.join path) ∧
      (o.startsWith p → o ≠ p → compare p o = .lt)) ∧
    (∀ p a b c : Oid, a ≤ b → b ≤ c → a.startsWith p → c.startsWith p → b.startsWith p) ∧
    ∀ (α : Type) (t : OidTable α) (p : Oid), t.entries.Pairwise (fun q r => q.1 < r.1) →
      let stop := t.lowerBound p + t.entries.countP (·.1.startsWith p)
      stop ≤ t.length ∧ ∀ i o a, t.get? i = some (o, a) →
        (o.startsWith p ↔ t.lowerBound p ≤ i ∧ i < stop) := by
  refine ⟨fun a b c => ?_, fun p x y xs ys h => ?_, fun p o => ?_, fun p a b c => ?_, ?_⟩
  · exact ⟨Std.LawfulEqOrd.compare_eq_iff_eq, Std.OrientedOrd.eq_swap, Std.TransCmp.lt_trans,
      Oid.lt_iff_compare, Oid.le_iff_compare⟩
  · exact Oid.lt_iff_compare.1 (Oid.join_lt_join_of_lt h)
  · exact ⟨Oid.startsWith_iff_exists_join,
      fun hbeneath hne => Oid.lt_iff_compare.1 (Oid.lt_of_startsWith hbeneath hne)⟩
  · exact Oid.startsWith_of_between
  · intro α t p h stop
    have hascending : t.Ascending := h
    have hstop : stop = t.lowerBound p + (t.beneath p).length := by
      rw [beneath, ← List.countP_eq_length_filter]
    rw [hstop]
    exact ⟨hascending.lowerBound_add_le p, fun i o a hget => hascending.startsWith_iff hget⟩

/-- In a table with the root of all names and a name of 21 sub-identifiers,
    three entries lie beneath 1.3, the first of which is that name. -/
theorem compare_total_and_beneath_contiguous_run :
    let long : Oid := ⟨1 :: 3 :: List.replicate 19 0⟩
    let t : OidTable Nat :=
      ⟨[(⟨[]⟩, 0), (⟨[1, 3]⟩, 1), (long, 2), (⟨[1, 3, 1]⟩, 3), (⟨[1, 4]⟩, 4)], 5⟩
    compare ⟨[1, 3]⟩ long = .lt ∧ compare long ⟨[1, 4]⟩ = .lt ∧
      compare (⟨[1, 3]⟩ : Oid) ⟨[1, 4]⟩ = .lt ∧
      compare (Oid.join ⟨[1, 3]⟩ [0, 7]) (Oid.join ⟨[1, 3]⟩ [1]) = .lt ∧
      Oid.startsWith long ⟨[1, 3]⟩ ∧ t.entries.Pairwise (fun q r => q.1 < r.1) ∧
      ∀ i o a, t.get? i = some (o, a) → (o.startsWith ⟨[1, 3]⟩ ↔ 1 ≤ i ∧ i < 1 + 3) := by
  intro long t
  obtain ⟨htotal, hpart, hbeneath, hbetween, hrun⟩ := compare_total_and_beneath_contiguous
  have hascending : t.entries.Pairwise (fun q r => q.1 < r.1) := by decide
  have hlong : compare ⟨[1, 3]⟩ long = .lt := (hbeneath _ _).2 (by decide) (by decide)
  have hnext : compare long ⟨[1, 4]⟩ = .lt := hpart ⟨[1]⟩ 3 4 _ [] (by decide)
  exact ⟨hlong, hnext, (htotal _ long _).2.2.1 hlong hnext, hpart _ 0 1 [7] [] (by decide),
    hbetween _ ⟨[1, 3]⟩ _ ⟨[1, 3, 1]⟩ (by decide) (by decide) (by decide) (by decide), hascending,
    (hrun Nat t ⟨[1, 3]⟩ hascending).2⟩

end SnmpAgent.OidTable
