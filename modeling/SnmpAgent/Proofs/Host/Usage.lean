import SnmpAgent.Host.Proc
import Mathlib.Algebra.Order.Floor.Div

/-!
# Percentages of use

How much of a file system is used is told in percents, rounded up, and computed
in 64 bits. Whatever exceeds them stops at the largest number, before it is
divided: a percentage is right as long as so many percents of the total fit, and
is otherwise the number of those that do.

* `Proc.share`: the exact percentage;
* `Proc.reach`: the percents of a total that fit;
* `Proc.toInt_percentUsed`: the smaller of both is what is computed;
* `Proc.percentages`: what follows for every total and every file system.
-/

namespace SnmpAgent.Proc

variable {m n total : ℕ}

/-- The part `n` of a total in percent, rounded up. -/
def share (n total : ℕ) : ℕ := 100 * n ⌈/⌉ total

/-- The most percents of a total whose sum fits in 64 bits. -/
def reach (total : ℕ) : ℕ := (2 ^ 64 - 1) / total

/-! ## Shares -/

/-- A share is the least number of percents that cover a part. -/
theorem share_le_iff (h : 0 < total) : share n total ≤ m ↔ 100 * n ≤ total * m :=
  ceilDiv_le_iff_le_mul h

theorem share_le_hundred (h : n ≤ total) : share n total ≤ 100 := by
  rcases Nat.eq_zero_or_pos total with rfl | hpos
  · simp [share]
  · exact (share_le_iff hpos).2 (by omega)

theorem share_eq_zero_iff (h : 0 < total) : share n total = 0 ↔ n = 0 := by
  rw [← Nat.le_zero, share_le_iff h]
  omega

theorem share_mono (h : m ≤ n) : share m total ≤ share n total := by
  rcases Nat.eq_zero_or_pos total with rfl | hpos
  · simp [share]
  · have hn := (share_le_iff hpos).1 (le_refl (share n total))
    exact (share_le_iff hpos).2 (by omega)

/-- All of a total are a hundred percents. -/
theorem share_self (h : 0 < total) : share total total = 100 := by
  refine le_antisymm (share_le_hundred le_rfl) ?_
  have hle := (share_le_iff h).1 (le_refl (share total total))
  rw [mul_comm] at hle
  exact Nat.le_of_mul_le_mul_left hle h

/-! ## What fits -/

theorem le_reach_iff (h : 0 < total) : n ≤ reach total ↔ n * total < 2 ^ 64 := by
  rw [reach, Nat.le_div_iff_mul_le h]
  omega

theorem reach_pos (total : UInt64) (h : 0 < total.toNat) : 0 < reach total.toNat :=
  (le_reach_iff h).2 (by simpa using total.toNat_lt)

/-- Dividing what stopped at the largest number gives the share or the percents
    that fit, whichever is less. -/
theorem saturate64_div (h : 0 < total) :
    saturate64 (saturate64 (n * 100) + (total - 1)) / total = min (share n total) (reach total) := by
  have hdiv : Monotone (· / total : ℕ → ℕ) := fun _ _ => Nat.div_le_div_right
  have hadd : Monotone (· + (total - 1) : ℕ → ℕ) := fun _ _ hle => Nat.add_le_add_right hle _
  have hstop (n : ℕ) : saturate64 n = min n (2 ^ 64 - 1) := rfl
  have hshare : (n * 100 + (total - 1)) / total = share n total := by
    rw [share, Nat.ceilDiv_eq_add_pred_div, mul_comm, Nat.add_sub_assoc h]
  have hreach : reach total ≤ (2 ^ 64 - 1 + (total - 1)) / total :=
    Nat.div_le_div_right (Nat.le_add_right _ _)
  calc saturate64 (saturate64 (n * 100) + (total - 1)) / total
      = min (min ((n * 100 + (total - 1)) / total) ((2 ^ 64 - 1 + (total - 1)) / total))
          (reach total) := by
        rw [hstop, hstop, hdiv.map_min, hadd.map_min, hdiv.map_min, reach]
    _ = min (share n total) (reach total) := by
        rw [hshare, min_assoc, min_eq_right hreach]

/-! ## Percentages -/

/-- A percentage is the share of what is used or the percents that fit,
    whichever is less, and never exceeds a hundred. -/
theorem toInt_percentUsed (used total : UInt64) : (percentUsed used total).toInt =
    (min (min (share used.toNat total.toNat) (reach total.toNat)) 100 : ℕ) := by
  rcases Nat.eq_zero_or_pos total.toNat with hzero | hpos
  · have htotal : total = 0 := UInt64.toNat_inj.1 hzero
    simp [htotal, percentUsed, share]
  · have hne : total ≠ 0 := fun hzero => by simp [hzero] at hpos
    have hsmall := min_le_right (min (share used.toNat total.toNat) (reach total.toNat)) 100
    simp only [percentUsed, if_neg hne, saturate64_div hpos]
    exact Int32.toInt_ofNat_of_lt (by omega)

theorem percentUsed_le_hundred (used total : UInt64) : (percentUsed used total).toInt ≤ 100 := by
  rw [toInt_percentUsed]
  omega

/-- A larger part has no fewer percents. -/
theorem percentUsed_mono (total : UInt64) {used used' : UInt64} (h : used ≤ used') :
    (percentUsed used total).toInt ≤ (percentUsed used' total).toInt := by
  have hshare : share used.toNat total.toNat ≤ share used'.toNat total.toNat :=
    share_mono (UInt64.le_iff_toNat_le.1 h)
  rw [toInt_percentUsed, toInt_percentUsed]
  omega

theorem percentUsed_eq_zero_iff {total : UInt64} (h : 0 < total.toNat) (used : UInt64) :
    (percentUsed used total).toInt = 0 ↔ used = 0 := by
  have hzero : used = 0 ↔ share used.toNat total.toNat = 0 := by
    rw [share_eq_zero_iff h, ← UInt64.toNat_inj]
    rfl
  have hreach := reach_pos total h
  rw [toInt_percentUsed, hzero]
  omega

theorem toInt_percentUsed_of_le {used total : UInt64} (h : used ≤ total) :
    (percentUsed used total).toInt =
      (min (share used.toNat total.toNat) (reach total.toNat) : ℕ) := by
  have hshare := share_le_hundred (UInt64.le_iff_toNat_le.1 h)
  rw [toInt_percentUsed, min_eq_left ((min_le_left _ _).trans hshare)]

/-- A percentage is exact if so many percents of the total fit. -/
theorem percentUsed_eq_share_iff {used total : UInt64} (h : used ≤ total)
    (hpos : 0 < total.toNat) : (percentUsed used total).toInt = share used.toNat total.toNat ↔
      share used.toNat total.toNat * total.toNat < 2 ^ 64 := by
  rw [toInt_percentUsed_of_le h, ← le_reach_iff hpos, Int.natCast_inj, min_eq_left_iff]

/-- A total has a hundred percents if a hundred totals fit. -/
theorem percentUsed_self_iff {total : UInt64} (hpos : 0 < total.toNat) :
    (percentUsed total total).toInt = 100 ↔ 100 * total.toNat < 2 ^ 64 := by
  have hself := percentUsed_eq_share_iff (UInt64.le_refl total) hpos
  rwa [share_self hpos] at hself

theorem percentUsed_all_eq_share_iff {total : UInt64} (hpos : 0 < total.toNat) :
    (∀ used ≤ total, (percentUsed used total).toInt = share used.toNat total.toNat) ↔
      100 * total.toNat < 2 ^ 64 := by
  constructor
  · intro hall
    rw [← percentUsed_self_iff hpos, hall total (UInt64.le_refl total), share_self hpos]
    rfl
  · intro hfits used hused
    have hshare := share_le_hundred (UInt64.le_iff_toNat_le.1 hused)
    exact (percentUsed_eq_share_iff hused hpos).2
      ((Nat.mul_le_mul_right _ hshare).trans_lt hfits)

theorem toNat_usedPart (total free : UInt64) :
    (usedPart total free).toNat = total.toNat - free.toNat :=
  UInt64.toNat_ofNat_of_lt' ((Nat.sub_le _ _).trans_lt total.toNat_lt)

theorem usedPart_le (total free : UInt64) : usedPart total free ≤ total := by
  rw [UInt64.le_iff_toNat_le, toNat_usedPart]
  exact Nat.sub_le _ _

/-- What the percentages of a total say. -/
structure Percentages (total : UInt64) : Prop where
  /-- Of a part, they are the share or the percents that fit. -/
  toInt_eq : ∀ used ≤ total, (percentUsed used total).toInt =
    (min (share used.toNat total.toNat) (reach total.toNat) : ℕ)
  /-- A percentage is the share of a part exactly if so many percents of the
      total fit. -/
  exact_iff : ∀ used ≤ total, (percentUsed used total).toInt = share used.toNat total.toNat ↔
    share used.toNat total.toNat * total.toNat < 2 ^ 64
  /-- All percentages are shares exactly if a hundred totals fit. -/
  all_exact_iff : (∀ used ≤ total, (percentUsed used total).toInt = share used.toNat total.toNat) ↔
    100 * total.toNat < 2 ^ 64
  /-- Just a total of which a hundred fit has a hundred percents itself. -/
  self_iff : (percentUsed total total).toInt = 100 ↔ 100 * total.toNat < 2 ^ 64
  eq_zero_iff : ∀ used, (percentUsed used total).toInt = 0 ↔ used = 0
  le_hundred : ∀ used, (percentUsed used total).toInt ≤ 100
  mono : ∀ used used', used ≤ used' →
    (percentUsed used total).toInt ≤ (percentUsed used' total).toInt

/-- A percentage is exact if so many percents of the total fit in 64 bits, which
    is the case for all parts of a total exactly if it is so for a hundred
    percents. Otherwise it is the number of percents that fit. The rows of disks
    show these percentages of what is not free. -/
theorem percentages (total : UInt64) (path : String) (u : FsUsage) :
    (0 < total → Percentages total) ∧
      (diskFigures path u).percent.toInt =
        (min (share (u.blocks.toNat - u.blocksFree.toNat) u.blocks.toNat)
          (reach u.blocks.toNat) : ℕ) ∧
      (diskFigures path u).inodePercent.toInt =
        (min (share (u.files.toNat - u.filesFree.toNat) u.files.toNat)
          (reach u.files.toNat) : ℕ) := by
  refine ⟨fun htotal => ?_, ?_⟩
  · have hpos : 0 < total.toNat := UInt64.lt_iff_toNat_lt.1 htotal
    exact {
      toInt_eq := fun _ => toInt_percentUsed_of_le
      exact_iff := fun _ hused => percentUsed_eq_share_iff hused hpos
      all_exact_iff := percentUsed_all_eq_share_iff hpos
      self_iff := percentUsed_self_iff hpos
      eq_zero_iff := percentUsed_eq_zero_iff hpos
      le_hundred := fun used => percentUsed_le_hundred used total
      mono := fun _ _ => percentUsed_mono total }
  · rw [← toNat_usedPart, ← toNat_usedPart]
    exact ⟨toInt_percentUsed_of_le (usedPart_le _ _), toInt_percentUsed_of_le (usedPart_le _ _)⟩

/-- The percentages of a small disk are exact. -/
theorem percentages_small : (0 : UInt64) < 1000 ∧ Percentages 1000 ∧
    (∀ used ≤ (1000 : UInt64), (percentUsed used 1000).toInt = share used.toNat 1000) ∧
    (diskFigures "/data" ⟨4096, 1000, 250, 300, 200⟩).percent.toInt = 75 ∧
    (diskFigures "/data" ⟨4096, 1000, 250, 300, 200⟩).inodePercent.toInt = 34 := by
  have hpos : (0 : UInt64) < 1000 := by decide
  obtain ⟨htotal, hblocks, hfiles⟩ := percentages 1000 "/data" ⟨4096, 1000, 250, 300, 200⟩
  exact ⟨hpos, htotal hpos, (htotal hpos).all_exact_iff.2 (by decide), hblocks.trans (by decide),
    hfiles.trans (by decide)⟩

/-- A full disk of 2 ^ 63 blocks is one percent full. -/
theorem percentUsed_full : (0 : UInt64) < 9223372036854775808 ∧
    (percentUsed 9223372036854775808 9223372036854775808).toInt = 1 ∧
    share (2 ^ 63) (2 ^ 63) = 100 ∧
    (diskFigures "/" ⟨1, 9223372036854775808, 0, 0, 0⟩).percent.toInt = 1 := by
  decide

end SnmpAgent.Proc
