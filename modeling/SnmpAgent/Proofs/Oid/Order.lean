import SnmpAgent.Oid
import Mathlib.Order.Defs.LinearOrder
import Mathlib.Data.List.Basic

/-!
# The order of object identifiers

Identifiers are ordered as lists of numbers are, so any two of them can be
compared, and only an identifier and itself are neither above nor below each
other.

* `Oid.instLinearOrder`: the order is linear.
-/

namespace SnmpAgent.Oid

instance : Std.TransOrd Oid where
  eq_swap := Std.OrientedOrd.eq_swap (α := List UInt32)
  isLE_trans := Std.TransOrd.isLE_trans (α := List UInt32)

instance : Std.LawfulEqOrd Oid where
  eq_of_compare {a b} h := by
    have hsubids : a.subids = b.subids := Std.LawfulEqOrd.eq_of_compare h
    cases a
    cases b
    exact congrArg mk hsubids

variable {a b : Oid}

theorem lt_iff_compare : a < b ↔ compare a b = .lt := Iff.rfl

theorem le_iff_compare : a ≤ b ↔ compare a b ≠ .gt := Ordering.isLE_iff_ne_gt

/-- The order of identifiers is linear. -/
instance instLinearOrder : LinearOrder Oid where
  le_refl _ := Std.ReflCmp.isLE_rfl
  le_trans _ _ _ := Std.TransCmp.isLE_trans
  lt_iff_le_not_ge a b := by
    rw [le_iff_compare, le_iff_compare, lt_iff_compare, Std.OrientedOrd.eq_swap (a := b)]
    cases compare a b <;> decide
  le_antisymm _ _ h h' := Std.LawfulEqCmp.eq_of_compare (Std.OrientedCmp.isLE_antisymm h h')
  le_total a b := by
    rw [le_iff_compare, le_iff_compare, Std.OrientedOrd.eq_swap (a := b)]
    cases compare a b <;> decide
  toDecidableLE := inferInstance
  toDecidableEq := inferInstance
  toDecidableLT := inferInstance
  compare_eq_compareOfLessAndEq a b := by
    simp only [compareOfLessAndEq, lt_iff_compare,
      ← Std.LawfulEqOrd.compare_eq_iff_eq (α := Oid)]
    cases compare a b <;> rfl

end SnmpAgent.Oid
