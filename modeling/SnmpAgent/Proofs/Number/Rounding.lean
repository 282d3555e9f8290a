import SnmpAgent.Number.Binary64
import Mathlib.Data.Int.Log
import Mathlib.Data.Rat.Floor
import Mathlib.Tactic.FieldSimp
import Mathlib.Tactic.Linarith
import Mathlib.Tactic.NormNum
import Mathlib.Tactic.Positivity
import Mathlib.Tactic.Ring

/-!
# Rounding

A positive number lies between two neighbouring powers of two. The numbers of
53 significant bits between these are the multiples of one power of two, their
*unit*, so the nearest of them is the nearest whole number of units, and is told
by how far the number is from some whole number of units.

* `floorLog2_eq`: the powers of two around a number;
* `nearestEven_intCast_add`, `nearestEven_of_abs_sub_lt`: the whole number that
  is no more than a half away;
* `round_eq`: a number rounded in its units.
-/

namespace SnmpAgent.Binary64

variable {q d : ℚ} {e : ℤ}

/-! ## Powers of two -/

theorem pow2_eq (e : ℤ) : pow2 e = 2 ^ e := by
  rw [pow2]
  split_ifs with h
  · obtain ⟨n, rfl⟩ := Int.eq_ofNat_of_zero_le h
    rw [Int.toNat_natCast, Nat.one_shiftLeft, Nat.cast_pow, zpow_natCast, Nat.cast_ofNat]
  · obtain ⟨n, hn⟩ := Int.eq_ofNat_of_zero_le (show 0 ≤ -e by omega)
    obtain rfl : e = -n := by omega
    rw [neg_neg, Int.toNat_natCast, Nat.one_shiftLeft, Rat.mkRat_eq_div, zpow_neg, zpow_natCast,
      Nat.cast_pow, Nat.cast_ofNat, Int.cast_one, one_div]

theorem two_zpow_eq_inv {n : ℕ} (h : e + n = 0) : (2 : ℚ) ^ e = (2 ^ n)⁻¹ := by
  rw [eq_neg_of_add_eq_zero_left h, zpow_neg, zpow_natCast]

/-- A quotient of two numbers lies around the power of two whose exponent is the
    difference of theirs. -/
theorem pow_sub_one_lt_div {a b : ℕ} (ha : a ≠ 0) (hb : b ≠ 0) :
    (2 : ℚ) ^ ((a.log2 : ℤ) - b.log2 - 1) < a / b ∧
      (a / b : ℚ) < 2 ^ ((a.log2 : ℤ) - b.log2 + 1) := by
  have ha₀ : (0 : ℚ) < a := Nat.cast_pos.2 (Nat.pos_of_ne_zero ha)
  have hb₀ : (0 : ℚ) < b := Nat.cast_pos.2 (Nat.pos_of_ne_zero hb)
  have ha₁ : ((2 : ℚ) ^ a.log2) ≤ a := by exact_mod_cast Nat.log2_self_le ha
  have ha₂ : (a : ℚ) < 2 ^ (a.log2 + 1) := by exact_mod_cast Nat.lt_log2_self
  have hb₁ : ((2 : ℚ) ^ b.log2) ≤ b := by exact_mod_cast Nat.log2_self_le hb
  have hb₂ : (b : ℚ) < 2 ^ (b.log2 + 1) := by exact_mod_cast Nat.lt_log2_self
  constructor
  · rw [lt_div_iff₀ hb₀, sub_sub, zpow_sub₀ two_ne_zero, div_mul_eq_mul_div,
      div_lt_iff₀ (zpow_pos two_pos _)]
    calc (2 : ℚ) ^ (a.log2 : ℤ) * b ≤ a * b := by
          rw [zpow_natCast]
          gcongr
      _ < a * 2 ^ ((b.log2 : ℤ) + 1) := by
          rw [← Nat.cast_add_one, zpow_natCast]
          gcongr
  · rw [div_lt_iff₀ hb₀, sub_add_eq_add_sub, zpow_sub₀ two_ne_zero, div_mul_eq_mul_div,
      lt_div_iff₀ (zpow_pos two_pos _)]
    calc (a : ℚ) * 2 ^ (b.log2 : ℤ) ≤ a * b := by
          rw [zpow_natCast]
          gcongr
      _ < 2 ^ ((a.log2 : ℤ) + 1) * b := by
          rw [← Nat.cast_add_one, zpow_natCast]
          gcongr

/-- The exponent that is found is the one of the largest power of two that does
    not exceed the number. -/
theorem floorLog2_eq (h : 2 ^ e ≤ q) (h' : q < 2 ^ (e + 1)) : floorLog2 q = e := by
  have hq : 0 < q := (zpow_pos two_pos e).trans_le h
  have hquot : q = q.num.natAbs / q.den := by
    rw [Nat.cast_natAbs, abs_of_pos (Rat.num_pos.2 hq), Rat.num_div_den]
  obtain ⟨hlow, hhigh⟩ := pow_sub_one_lt_div (a := q.num.natAbs) (b := q.den)
    (Int.natAbs_ne_zero.2 (Rat.num_ne_zero.2 hq.ne')) q.den_ne_zero
  rw [← hquot] at hlow hhigh
  have hbelow := (zpow_lt_zpow_iff_right₀ one_lt_two).1 (hlow.trans h')
  have habove := (zpow_lt_zpow_iff_right₀ one_lt_two).1 (h.trans_lt hhigh)
  rw [floorLog2, pow2_eq]
  split_ifs with hle
  · have := (zpow_lt_zpow_iff_right₀ one_lt_two).1 (hle.trans_lt h')
    omega
  · have := (zpow_lt_zpow_iff_right₀ one_lt_two).1 (h.trans_lt (not_le.1 hle))
    omega

/-! ## Whole numbers -/

theorem nearestEven_eq (q : ℚ) : nearestEven q =
    if Int.fract q < 1 / 2 then ⌊q⌋
    else if 1 / 2 < Int.fract q then ⌊q⌋ + 1
    else if ⌊q⌋ % 2 = 0 then ⌊q⌋ else ⌊q⌋ + 1 := by
  have hhalf : mkRat 1 2 = 1 / 2 := by norm_num [Rat.mkRat_eq_div]
  rw [nearestEven, hhalf]
  rfl

/-- The nearest whole number is one that is less than a half away, or the even
    one that is a half away. -/
theorem nearestEven_intCast_add (n : ℤ) (hd : |d| ≤ 1 / 2) (heven : |d| = 1 / 2 → n % 2 = 0) :
    nearestEven (n + d) = n := by
  obtain ⟨hlow, hhigh⟩ := abs_le.1 hd
  rw [nearestEven_eq, Int.fract_intCast_add, Int.floor_intCast_add]
  rcases le_or_gt 0 d with hsign | hsign
  · -- The number itself is the whole part.
    have hfloor : ⌊d⌋ = 0 := Int.floor_eq_iff.2 ⟨by simpa using hsign, by norm_num; linarith⟩
    rw [Int.fract, hfloor, Int.cast_zero, sub_zero, add_zero, if_neg (not_lt.2 hhigh)]
    split_ifs with hlt hmod
    · rfl
    · rfl
    · have : |d| = 1 / 2 := by
        rw [abs_of_nonneg hsign]
        linarith
      exact absurd (heven this) hmod
  · -- The whole part is the one before.
    have hfloor : ⌊d⌋ = -1 := Int.floor_eq_iff.2 ⟨by norm_num; linarith, by norm_num; linarith⟩
    rw [Int.fract, hfloor, if_neg (by norm_num; linarith)]
    split_ifs with hlt hmod
    · omega
    · have : |d| = 1 / 2 := by
        rw [abs_of_neg hsign]
        norm_num at hlt
        linarith
      have := heven this
      omega
    · omega

/-- The nearest whole number is the one that is less than a half away. -/
theorem nearestEven_of_abs_sub_lt {n : ℤ} (h : |q - n| < 1 / 2) : nearestEven q = n := by
  have hnear := nearestEven_intCast_add n h.le fun hhalf => absurd hhalf h.ne
  rwa [add_sub_cancel] at hnear

/-! ## Rounding -/

/-- A number is rounded to the nearest whole number of its units. -/
theorem round_eq (h : 2 ^ e ≤ q) (h' : q < 2 ^ (e + 1)) :
    round q = nearestEven (q / 2 ^ (e - 52)) * 2 ^ (e - 52) := by
  have hq : 0 < q := (zpow_pos two_pos e).trans_le h
  have hunit : e + 1 - precision = e - 52 := by
    rw [precision]
    omega
  rw [round, if_neg (not_le.2 hq), floorLog2_eq h h', hunit]
  dsimp only
  rw [pow2_eq]

end SnmpAgent.Binary64
