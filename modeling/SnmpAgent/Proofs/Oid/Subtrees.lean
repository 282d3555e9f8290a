import SnmpAgent.Proofs.Oid.Order

/-!
# Subtrees in the order

The order of identifiers and the test whether one lies beneath another are
written apart, and still agree: a name comes before everything beneath it, and
what stands between it and something beneath it lies beneath it, too. So the
names of a subtree are an interval that begins with its root.

* `Oid.le_of_startsWith`, `Oid.lt_of_startsWith`: a name comes before what lies
  beneath it;
* `Oid.startsWith_of_le`, `Oid.startsWith_of_between`: subtrees have no gaps;
* `Oid.join_lt_join_of_lt`: where two names part, the smaller sub-identifier
  comes first;
* `Oid.Apart`: subtrees that stand one behind the other.
-/

namespace SnmpAgent.Oid

variable {o p a b c : Oid}

theorem startsWith_iff : o.startsWith p ↔ p.subids <+: o.subids := List.isPrefixOf_iff_prefix

theorem startsWith_self (o : Oid) : o.startsWith o := startsWith_iff.2 (List.prefix_refl _)

theorem startsWith_join (o : Oid) (path : List UInt32) : (o.join path).startsWith o :=
  startsWith_iff.2 (List.prefix_append _ _)

/-- What lies beneath a name is reached from it by a path. -/
theorem startsWith_iff_exists_join : o.startsWith p ↔ ∃ path, o = p.join path := by
  constructor
  · intro h
    obtain ⟨path, hpath⟩ := startsWith_iff.1 h
    exact ⟨path, congrArg mk hpath.symm⟩
  · rintro ⟨path, rfl⟩
    exact p.startsWith_join path

/-- The first sub-identifier decides, and where it is the same, the others do. -/
theorem cons_le_cons {x y : UInt32} {xs ys : List UInt32} :
    (⟨x :: xs⟩ : Oid) ≤ ⟨y :: ys⟩ ↔ x < y ∨ x = y ∧ (⟨xs⟩ : Oid) ≤ ⟨ys⟩ := by
  have hcompare : compare (⟨x :: xs⟩ : Oid) ⟨y :: ys⟩ =
      (compare x y).then (compare (⟨xs⟩ : Oid) ⟨ys⟩) := List.compare_cons_cons
  rw [le_iff_compare, le_iff_compare, hcompare, ← Std.compare_eq_lt,
    ← Std.LawfulEqOrd.compare_eq_iff_eq (α := UInt32)]
  cases compare x y <;> simp

theorem nil_le (o : Oid) : (⟨[]⟩ : Oid) ≤ o := by
  obtain ⟨_ | ⟨x, xs⟩⟩ := o
  · exact le_rfl
  · exact le_iff_compare.2 nofun

/-- Names beneath one node are ordered as their paths from there are. -/
theorem join_le_join {xs ys : List UInt32} : o.join xs ≤ o.join ys ↔ (⟨xs⟩ : Oid) ≤ ⟨ys⟩ := by
  obtain ⟨o⟩ := o
  induction o with
  | nil => exact Iff.rfl
  | cons z o ih =>
    refine cons_le_cons.trans (Iff.trans ?_ ih)
    simp [join]

/-- A name is not above what lies beneath it. -/
theorem le_of_startsWith (h : o.startsWith p) : p ≤ o := by
  obtain ⟨path, rfl⟩ := startsWith_iff_exists_join.1 h
  have hjoin : p.join [] ≤ p.join path := join_le_join.2 (nil_le _)
  rwa [join, List.append_nil] at hjoin

/-- A name is below all others that lie beneath it. -/
theorem lt_of_startsWith (h : o.startsWith p) (hne : o ≠ p) : p < o :=
  lt_of_le_of_ne (le_of_startsWith h) hne.symm

/-- Subtrees have no gaps: between a name and something beneath it there are
    only names beneath it. -/
theorem startsWith_of_le (hpb : p ≤ b) (hbc : b ≤ c) (h : c.startsWith p) : b.startsWith p := by
  obtain ⟨p⟩ := p
  obtain ⟨b⟩ := b
  obtain ⟨c⟩ := c
  induction p generalizing b c with
  | nil => exact startsWith_iff.2 List.nil_prefix
  | cons x p ih =>
    obtain ⟨path, rfl⟩ := startsWith_iff.1 h
    cases b with
    | nil => exact absurd hpb (not_le_of_gt (lt_iff_compare.2 rfl))
    | cons y b =>
      -- The first sub-identifier of `b` is bounded by that of `p` on both sides.
      have hrest : x = y ∧ (⟨p⟩ : Oid) ≤ ⟨b⟩ ∧ (⟨b⟩ : Oid) ≤ ⟨p ++ path⟩ := by
        rcases cons_le_cons.1 hpb with hxy | ⟨rfl, hrest⟩
        · rcases cons_le_cons.1 hbc with hyx | ⟨rfl, -⟩
          · exact absurd hyx (UInt32.lt_asymm hxy)
          · exact absurd hxy (UInt32.lt_irrefl _)
        · rcases cons_le_cons.1 hbc with hxx | ⟨-, hbc⟩
          · exact absurd hxx (UInt32.lt_irrefl _)
          · exact ⟨rfl, hrest, hbc⟩
      obtain ⟨rfl, hpb, hbc⟩ := hrest
      have hprefix := ih b hpb _ (startsWith_iff.2 (List.prefix_append _ _)) hbc
      exact startsWith_iff.2 (List.cons_prefix_cons.2 ⟨rfl, startsWith_iff.1 hprefix⟩)

/-- Between two names beneath a node there are only names beneath it. -/
theorem startsWith_of_between (hab : a ≤ b) (hbc : b ≤ c) (ha : a.startsWith p)
    (hc : c.startsWith p) : b.startsWith p :=
  startsWith_of_le (le_trans (le_of_startsWith ha) hab) hbc hc

/-- Where two names part, the one that goes on with the smaller sub-identifier
    comes first. -/
theorem join_lt_join_of_lt {x y : UInt32} {xs ys : List UInt32} (h : x < y) :
    o.join (x :: xs) < o.join (y :: ys) := by
  rw [← not_le, join_le_join, cons_le_cons]
  rintro (hyx | ⟨rfl, -⟩)
  · exact UInt32.lt_asymm h hyx
  · exact UInt32.lt_irrefl _ h

/-! ## Subtrees apart -/

/-- The subtree of `b` stands behind the subtree of `p`: it begins later, and
    not within that. -/
def Apart (p b : Oid) : Prop := p < b ∧ ¬b.startsWith p

instance (p b : Oid) : Decidable (p.Apart b) := inferInstanceAs (Decidable (_ ∧ _))

theorem Apart.trans (h : p.Apart b) (h' : b.Apart c) : p.Apart c :=
  ⟨lt_trans h.1 h'.1, fun hc => h.2 (startsWith_of_le (le_of_lt h.1) (le_of_lt h'.1) hc)⟩

instance : IsTrans Oid Apart := ⟨fun _ _ _ => Apart.trans⟩

/-- Of names beneath nodes that are apart, the one beneath the first node comes
    first. -/
theorem Apart.join_lt_join (h : p.Apart b) (xs ys : List UInt32) : p.join xs < b.join ys := by
  by_contra hle
  -- Else the second node would stand between the first one and a name beneath that.
  have hb : b ≤ p.join xs := le_trans (le_of_startsWith (b.startsWith_join ys)) (not_lt.1 hle)
  exact h.2 (startsWith_of_le (le_of_lt h.1) hb (p.startsWith_join xs))

end SnmpAgent.Oid
