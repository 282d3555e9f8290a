import SnmpAgent.Number.Decimal
import SnmpAgent.Proofs.Number.Rounding

/-!
# Hundredths

A figure of `n` hundredths is rounded to the nearest number of double precision,
multiplied by a hundred, rounded again and cut to a whole number. The product of
the rounded figure and a hundred misses `n` by as many units of the figure as the
figure misses its nearest number of units by hundredths.

* `excess`: by how many hundredths of a unit a figure exceeds what it is rounded
  to;
* `FallsShort`: the figures for which that is more than half a unit of the
  product, so that the product is rounded to a number below `n`;
* `toNat_toHundredths`: those figures lose a hundredth, and no others.
-/

namespace SnmpAgent.Decimal

variable {n c : ℕ} {r : ℤ}

/-- By how many hundredths of a unit a figure of `n` hundredths exceeds the
    number of units that it is rounded to, where a unit of `n` is as much as
    `2 ^ c` units of the figure. -/
def excess (n c : ℕ) : ℤ := ((n * 2 ^ (52 + c - n.log2) : ℕ) : ℤ).bmod 100

/-- The figures of `n` hundredths that are read as one hundredth less: a unit of
    `n` is only as much as 64 units of the figure, and the figure exceeds what
    it is rounded to by more than 32 hundredths of a unit. -/
def FallsShort (n : ℕ) : Prop := 25 * 2 ^ n.log2 ≤ 16 * n ∧ 32 < excess n 6

instance (n : ℕ) : Decidable (FallsShort n) :=
  inferInstanceAs (Decidable (_ ∧ _))

/-! ## The figure -/

/-- There are as many units in a figure as to exclude that it lies halfway
    between two numbers of units. -/
theorem abs_excess_le (h : n.log2 ≤ 31) : |excess n c| ≤ 48 := by
  have hfour : (4 : ℤ) ∣ ((n * 2 ^ (52 + c - n.log2) : ℕ) : ℤ) := by
    refine Int.natCast_dvd_natCast.2 (Dvd.dvd.mul_left ?_ n)
    exact pow_dvd_pow 2 (show 2 ≤ 52 + c - n.log2 by omega)
  have hlow := Int.le_bmod (x := ((n * 2 ^ (52 + c - n.log2) : ℕ) : ℤ)) (m := 100) (by decide)
  have hhigh := Int.bmod_lt (x := ((n * 2 ^ (52 + c - n.log2) : ℕ) : ℤ)) (m := 100) (by decide)
  have hsum := Int.bmod_add_bdiv ((n * 2 ^ (52 + c - n.log2) : ℕ) : ℤ) 100
  rw [abs_le, excess]
  omega

/-- A hundred times the rounded figure misses `n` by as many units of the figure
    as the figure exceeds it by hundredths. -/
theorem round_mul_hundred (hlog : n.log2 ≤ 31) (h : 100 * 2 ^ n.log2 ≤ n * 2 ^ c)
    (h' : n * 2 ^ c < 200 * 2 ^ n.log2) :
    Binary64.round (n / 100) * 100 = n - excess n c / 2 ^ (52 + c - n.log2) := by
  have hlow : (2 : ℚ) ^ ((n.log2 : ℤ) - c) ≤ n / 100 := by
    rw [zpow_sub₀ two_ne_zero, zpow_natCast, zpow_natCast, div_le_div_iff₀ (by positivity)
      (by norm_num), mul_comm]
    exact_mod_cast h
  have hhigh : (n / 100 : ℚ) < 2 ^ ((n.log2 : ℤ) - c + 1) := by
    rw [zpow_add_one₀ two_ne_zero, zpow_sub₀ two_ne_zero, zpow_natCast, zpow_natCast,
      div_mul_eq_mul_div, div_lt_div_iff₀ (by norm_num) (by positivity), mul_assoc,
      mul_comm (2 ^ n.log2 : ℚ)]
    norm_num
    exact_mod_cast h'
  have hunit : (2 : ℚ) ^ ((n.log2 : ℤ) - c - 52) = (2 ^ (52 + c - n.log2))⁻¹ :=
    Binary64.two_zpow_eq_inv (by omega)
  have hsum : (n * 2 ^ (52 + c - n.log2) : ℚ) =
      excess n c + 100 * (((n * 2 ^ (52 + c - n.log2) : ℕ) : ℤ).bdiv 100 : ℤ) := by
    rw [excess]
    exact_mod_cast (Int.bmod_add_bdiv ((n * 2 ^ (52 + c - n.log2) : ℕ) : ℤ) 100).symm
  have hexcess : |(excess n c : ℚ)| ≤ 48 := by exact_mod_cast abs_excess_le hlog
  -- What is in excess of a multiple of a hundred is less than half a hundred.
  have hnear : Binary64.nearestEven (n / 100 / 2 ^ ((n.log2 : ℤ) - c - 52)) =
      ((n * 2 ^ (52 + c - n.log2) : ℕ) : ℤ).bdiv 100 := by
    refine Binary64.nearestEven_of_abs_sub_lt ?_
    obtain ⟨hlow, hhigh⟩ := abs_le.1 hexcess
    rw [hunit, div_inv_eq_mul, abs_lt]
    constructor <;> linarith
  rw [Binary64.round_eq hlow hhigh, hnear, hunit]
  field_simp
  linarith

/-! ## The product -/

/-- A number that is `n` and no more than one unit of `n` more or less is cut to
    `n`, unless it is less. -/
theorem floor_add_mul {s : ℤ} {u : ℚ} (hu : 0 < u) (hu' : u < 1) (hs : s = -1 ∨ s = 0 ∨ s = 1) :
    ⌊(n + s * u : ℚ)⌋ = if s = -1 then (n : ℤ) - 1 else n := by
  rcases hs with rfl | rfl | rfl
  · rw [if_pos rfl, Int.floor_eq_iff]
    push_cast
    constructor <;> linarith
  · rw [if_neg (by decide), Int.floor_eq_iff]
    push_cast
    constructor <;> linarith
  · rw [if_neg (by decide), Int.floor_eq_iff]
    push_cast
    constructor <;> linarith

/-- An even number less a fraction is rounded to the number before it or behind
    it where the fraction exceeds a half. -/
theorem nearestEven_sub_div {b : ℤ} (hb : b % 2 = 0) (hr : |r| ≤ 48) (hc : 6 ≤ c) :
    Binary64.nearestEven (b - r / 2 ^ c) =
      b + if 2 ^ c < 2 * r then -1 else if 2 * r < -2 ^ c then 1 else 0 := by
  have hpow : (64 : ℚ) ≤ 2 ^ c := by exact_mod_cast Nat.pow_le_pow_right (by decide : 0 < 2) hc
  have hpos : (0 : ℚ) < 2 ^ c := by linarith
  have hr' : |(r : ℚ)| ≤ 48 := by exact_mod_cast hr
  have hquot : |(r / 2 ^ c : ℚ)| ≤ 3 / 4 := by
    rw [abs_div, abs_of_pos hpos, div_le_iff₀ hpos]
    linarith
  have habove : 2 ^ c < 2 * r ↔ (1 / 2 : ℚ) < r / 2 ^ c := by
    rw [lt_div_iff₀ hpos, ← @Int.cast_lt ℚ]
    push_cast
    constructor <;> intro h <;> linarith
  have hbelow : 2 * r < -2 ^ c ↔ (r / 2 ^ c : ℚ) < -(1 / 2) := by
    rw [div_lt_iff₀ hpos, ← @Int.cast_lt ℚ]
    push_cast
    constructor <;> intro h <;> linarith
  simp only [habove, hbelow]
  -- All that matters of the part is that it is at most three quarters.
  generalize (r / 2 ^ c : ℚ) = x at hquot
  obtain ⟨hlow, hhigh⟩ := abs_le.1 hquot
  split_ifs with h₁ h₂
  · refine Binary64.nearestEven_of_abs_sub_lt ?_
    push_cast
    rw [abs_lt]
    constructor <;> linarith
  · refine Binary64.nearestEven_of_abs_sub_lt ?_
    push_cast
    rw [abs_lt]
    constructor <;> linarith
  · have hsmall : |-x| ≤ 1 / 2 := abs_le.2 ⟨by linarith, by linarith⟩
    rw [sub_eq_add_neg, add_zero, Binary64.nearestEven_intCast_add b hsmall fun _ => hb]

/-- A number that is `n` but for less than one lies between the same powers of
    two as `n`, unless it is less than one of them. -/
theorem pow_log2_le_sub {x : ℚ} (hn : n ≠ 0) (hx : |x| < 1) (hpow : n = 2 ^ n.log2 → x ≤ 0) :
    (2 : ℚ) ^ (n.log2 : ℤ) ≤ n - x ∧ (n - x : ℚ) < 2 ^ ((n.log2 : ℤ) + 1) := by
  obtain ⟨hx₁, hx₂⟩ := abs_lt.1 hx
  have hlow : ((2 : ℚ) ^ n.log2) ≤ n := by exact_mod_cast Nat.log2_self_le hn
  have hhigh : (n : ℚ) + 1 ≤ 2 ^ (n.log2 + 1) := by exact_mod_cast Nat.lt_log2_self (n := n)
  rw [← Nat.cast_add_one, zpow_natCast, zpow_natCast]
  refine ⟨?_, by linarith⟩
  rcases eq_or_ne n (2 ^ n.log2) with heq | hne
  · have := hpow heq
    linarith
  · have : ((2 : ℚ) ^ n.log2) + 1 ≤ n := by
      exact_mod_cast (Nat.log2_self_le hn).lt_of_ne hne.symm
    linarith

/-- A number that is `n` but for a few units of the figure is rounded to `n`, or
    to one unit of `n` less or more if the difference exceeds half of it. -/
theorem round_sub (hn : n ≠ 0) (hlog : n.log2 ≤ 31) (hr : |r| ≤ 48) (hc : 6 ≤ c)
    (hpow : n = 2 ^ n.log2 → r ≤ 0) :
    Binary64.round (n - r / 2 ^ (52 + c - n.log2)) =
      n + ((if 2 ^ c < 2 * r then -1 else if 2 * r < -2 ^ c then 1 else 0 : ℤ) : ℚ) *
        (2 ^ (52 - n.log2))⁻¹ := by
  obtain ⟨k, hk, hk'⟩ : ∃ k, 52 - n.log2 = k ∧ 21 ≤ k := ⟨_, rfl, by omega⟩
  have hsplit : (2 : ℚ) ^ (52 + c - n.log2) = 2 ^ k * 2 ^ c := by
    rw [← pow_add]
    congr 1
    omega
  have hunit : (2 : ℚ) ^ ((n.log2 : ℤ) - 52) = (2 ^ k)⁻¹ :=
    Binary64.two_zpow_eq_inv (by omega)
  have hmany : (48 : ℚ) < 2 ^ k * 2 ^ c := by
    rw [← pow_add]
    exact_mod_cast (by decide : 48 < 2 ^ 6).trans_le
      (Nat.pow_le_pow_right (by decide : 0 < 2) (show 6 ≤ k + c by omega))
  have hpart : |(r / (2 ^ k * 2 ^ c) : ℚ)| < 1 := by
    have hr' : |(r : ℚ)| ≤ 48 := by exact_mod_cast hr
    rw [abs_div, abs_of_pos (by linarith : (0 : ℚ) < 2 ^ k * 2 ^ c), div_lt_one (by linarith)]
    linarith
  have hpart' (heq : n = 2 ^ n.log2) : (r / (2 ^ k * 2 ^ c) : ℚ) ≤ 0 :=
    div_nonpos_of_nonpos_of_nonneg (by exact_mod_cast hpow heq) (by positivity)
  obtain ⟨h, h'⟩ := pow_log2_le_sub hn hpart hpart'
  -- Counted in units in the last place, the whole number is even.
  have hunits : (n - r / (2 ^ k * 2 ^ c) : ℚ) / 2 ^ ((n.log2 : ℤ) - 52) =
      ((n * 2 ^ k : ℤ) : ℚ) - r / 2 ^ c := by
    rw [hunit]
    push_cast
    field_simp
  have heven : (n * 2 ^ k : ℤ) % 2 = 0 :=
    Int.emod_eq_zero_of_dvd (Dvd.dvd.mul_left (dvd_pow_self 2 (by omega)) _)
  rw [hsplit, hk, Binary64.round_eq h h', hunits, nearestEven_sub_div heven hr hc, hunit]
  push_cast
  field_simp

/-- A number that is `n` but for a few units of the figure is rounded and cut to
    `n`, unless it is rounded to less. -/
theorem floor_round_sub (hn : n ≠ 0) (hlog : n.log2 ≤ 31) (hr : |r| ≤ 48) (hc : 6 ≤ c)
    (hpow : n = 2 ^ n.log2 → r ≤ 0) :
    ⌊Binary64.round (n - r / 2 ^ (52 + c - n.log2))⌋ =
      if 2 ^ c < 2 * r then (n : ℤ) - 1 else n := by
  have hsmall : ((2 : ℚ) ^ (52 - n.log2))⁻¹ < 1 :=
    inv_lt_one_of_one_lt₀ (one_lt_pow₀ one_lt_two (by omega))
  rw [round_sub hn hlog hr hc hpow,
    floor_add_mul (by positivity) hsmall (by split_ifs <;> decide)]
  split_ifs <;> first | rfl | contradiction

/-! ## The cut figure -/

/-- A figure of `n` hundredths is cut to `n - 1` or to `n`. -/
theorem floor_round_mul_hundred (hn : n ≠ 0) (hlog : n.log2 ≤ 31) :
    ⌊Binary64.round (Binary64.round (n / 100) * 100)⌋ =
      if FallsShort n then (n : ℤ) - 1 else n := by
  have hlow : 2 ^ n.log2 ≤ n := Nat.log2_self_le hn
  have hhigh : n < 2 ^ (n.log2 + 1) := Nat.lt_log2_self
  rw [pow_succ] at hhigh
  by_cases hshort : 25 * 2 ^ n.log2 ≤ 16 * n
  · have hpow (heq : n = 2 ^ n.log2) : excess n 6 ≤ 0 := by omega
    have hiff : 2 ^ 6 < 2 * excess n 6 ↔ FallsShort n := by
      rw [FallsShort]
      omega
    rw [round_mul_hundred (c := 6) hlog (by omega) (by omega),
      floor_round_sub hn hlog (abs_excess_le hlog) (Nat.le_refl 6) hpow]
    simp only [hiff]
  · have hpow (heq : n = 2 ^ n.log2) : excess n 7 ≤ 0 := by
      -- All powers of two have the same number of units.
      have hunits : n * 2 ^ (52 + 7 - n.log2) = 2 ^ 59 := by
        nth_rewrite 1 [heq]
        rw [← pow_add]
        congr 1
        omega
      rw [excess, hunits]
      decide
    have hle := (abs_le.1 (abs_excess_le (c := 7) hlog)).2
    rw [round_mul_hundred (c := 7) hlog (by omega) (by omega),
      floor_round_sub hn hlog (abs_excess_le hlog) (by decide) hpow, if_neg (by omega),
      if_neg fun hfalls => hshort hfalls.1]

/-- What a figure of `n` hundredths is read as. -/
def readAs (n : ℕ) : ℕ := if FallsShort n then n - 1 else n

/-- The smallest figures that are not read as what they say. -/
example : (List.range 120).filter (fun n => readAs n ≠ n) = [29, 57, 58, 113, 114, 115, 116] := by
  decide +kernel

theorem readAs_le (n : ℕ) : readAs n ≤ n := by
  rw [readAs]
  split_ifs <;> omega

theorem readAs_eq_iff (n : ℕ) : readAs n = n ↔ ¬FallsShort n := by
  rw [readAs]
  split_ifs with h
  · have hpos : n ≠ 0 := by
      rintro rfl
      exact absurd h (by decide)
    exact iff_of_false (by omega) (not_not_intro h)
  · exact iff_of_true rfl h

/-- A figure of `n` hundredths is read as `n`, or as one less if it falls
    short. -/
theorem toNat_toHundredths (h : n < 2 ^ 32) :
    (toHundredths (magnitude n (-2))).toNat = readAs n := by
  have hmagnitude : magnitude n (-2) = Binary64.round (n / 100) := by
    rw [magnitude, if_neg (by decide), Rat.mkRat_eq_div]
    rfl
  rw [hmagnitude, toHundredths, Binary64.truncate32]
  rcases eq_or_ne n 0 with rfl | hn
  · decide +kernel
  · have hlog : n.log2 ≤ 31 := Nat.le_of_lt_succ ((Nat.log2_lt hn).2 h)
    have hfloor : (Binary64.round (Binary64.round (n / 100) * 100)).floor.toNat = readAs n := by
      have := floor_round_mul_hundred hn hlog
      change ⌊Binary64.round (Binary64.round (n / 100) * 100)⌋.toNat = _
      rw [readAs]
      split_ifs at this ⊢ <;> omega
    have hlt : readAs n < 2 ^ 32 := (readAs_le n).trans_lt h
    have hlimit : readAs n ≤ 1 <<< 32 - 1 := Nat.le_sub_one_of_lt hlt
    rw [hfloor, Nat.min_eq_left hlimit, UInt32.toNat_ofNat_of_lt' hlt]

end SnmpAgent.Decimal
