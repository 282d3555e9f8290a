import SnmpAgent.Host.Proc
import SnmpAgent.Mib.Metric
import SnmpAgent.Proofs.Number.Hundredths
import SnmpAgent.Proofs.Text.Fields
import Mathlib.Data.List.TakeDrop

/-!
# Uptime and load averages

The kernel writes its uptime and its load averages with two places. Such a
figure is read as the number of hundredths that it says, or as one less if it
falls short in double precision. A manager is shown the figure that was read, so
what the kernel wrote is what a manager sees exactly if it does not fall short.

* `Decimal.figure`: how a number of hundredths is written;
* `Decimal.parse?_figure`: what it says;
* `Proc.reads_figures`: what is read and shown of it.
-/

namespace SnmpAgent

namespace Decimal

variable {whole cents : ℕ} {c : Char}

/-! ## Figures -/

/-- A figure as it is written: the digits of its whole part, a point and two
    digits more. -/
def figure (whole cents : ℕ) : List Char :=
  Nat.toDigits 10 whole ++ ['.', Nat.digitChar (cents / 10), Nat.digitChar (cents % 10)]

theorem isDigit_of_mem_toDigits (h : c ∈ Nat.toDigits 10 whole) : c.isDigit :=
  Nat.isDigit_of_mem_toDigits (by decide) (by decide) h

theorem isDigit_digitChar {d : ℕ} (h : d < 10) : (Nat.digitChar d).isDigit :=
  (by decide : ∀ d < 10, (Nat.digitChar d).isDigit) d h

theorem value_digitChar {d : ℕ} (h : d < 10) : (Nat.digitChar d).toNat - '0'.toNat = d :=
  (by decide : ∀ d < 10, (Nat.digitChar d).toNat - '0'.toNat = d) d h

/-- The digits at the beginning of a text end where something else begins. -/
theorem digits_append {front : List Char} (hfront : ∀ c ∈ front, c.isDigit) (rest : List Char)
    (hrest : ∀ c ∈ rest.head?, ¬c.isDigit) : digits (front ++ rest) = (front, rest) := by
  have hsame (c : Char) : ('0' ≤ c && c ≤ '9') = c.isDigit := by
    simp [Char.isDigit, Char.le_def]
  rw [digits, List.span_eq_takeWhile_dropWhile]
  simp only [hsame]
  rw [List.takeWhile_append_of_pos hfront, List.dropWhile_append_of_pos hfront]
  cases rest with
  | nil => simp
  | cons c cs =>
    have hc := hrest c rfl
    rw [List.takeWhile_cons_of_neg hc, List.dropWhile_cons_of_neg hc, List.append_nil]

/-- The digits of a figure, without the point, denote its hundredths. -/
theorem decimal?_figure (h : cents < 100) : Text.decimal? (Nat.toDigits 10 whole ++
    [Nat.digitChar (cents / 10), Nat.digitChar (cents % 10)]) = some (100 * whole + cents) := by
  refine Text.decimal?_eq_some_iff.2 ⟨by simp, ?_, ?_⟩
  · refine List.forall_mem_append.2 ⟨fun _ => isDigit_of_mem_toDigits, ?_⟩
    simp only [List.forall_mem_cons]
    exact ⟨isDigit_digitChar (by omega), isDigit_digitChar (by omega), by simp⟩
  · rw [Nat.ofDigitChars_append, Nat.ofDigitChars_ten_toDigits, Nat.ofDigitChars_cons,
      Nat.ofDigitChars_cons, value_digitChar (by omega), value_digitChar (by omega)]
    change 10 * (10 * whole + cents / 10) + cents % 10 = 100 * whole + cents
    omega

/-- A figure is a number of hundredths. -/
theorem number?_figure (h : cents < 100) :
    number? false (figure whole cents) = some (.number false (100 * whole + cents) (-2)) := by
  have hplaces : ∀ c ∈ [Nat.digitChar (cents / 10), Nat.digitChar (cents % 10)], c.isDigit := by
    simp only [List.forall_mem_cons]
    exact ⟨isDigit_digitChar (by omega), isDigit_digitChar (by omega), by simp⟩
  have hfraction := digits_append hplaces [] (by simp)
  rw [List.append_nil] at hfraction
  rw [number?, figure, digits_append (fun _ => isDigit_of_mem_toDigits) _ (by simp)]
  simp only [hfraction, decimal?_figure h]
  rfl

/-- A text that begins with a digit has no sign. -/
theorem sign_of_isDigit {cs : List Char} (h : c.isDigit) : sign (c :: cs) = (false, c :: cs) := by
  rw [sign]
  all_goals
    intro rest heq
    cases heq
    exact absurd h (by decide)

/-- A text with a point is no name. -/
theorem name?_of_mem {negative : Bool} {text : List Char} (h : '.' ∈ text) :
    name? negative text = none := by
  have hmem : '.' ∈ text.map Char.toLower := List.mem_map.2 ⟨'.', h, by decide⟩
  have hne {name : String} (hname : '.' ∉ name.toList) : text.map Char.toLower ≠ name.toList :=
    fun heq => hname (heq ▸ hmem)
  rw [name?, if_neg (not_or.2 ⟨hne (by decide), hne (by decide)⟩), if_neg (hne (by decide))]

/-- A figure says how many hundredths it is. -/
theorem parse?_figure (h : cents < 100) :
    parse? (figure whole cents) = some (.number false (100 * whole + cents) (-2)) := by
  obtain ⟨c, cs, hcs⟩ := List.exists_cons_of_ne_nil (Nat.toDigits_ne_nil (n := whole) (b := 10))
  have hc : c.isDigit := isDigit_of_mem_toDigits (hcs ▸ List.mem_cons_self)
  have hsign : sign (figure whole cents) = (false, figure whole cents) := by
    rw [figure, hcs]
    exact sign_of_isDigit hc
  have hpoint : '.' ∈ figure whole cents := by simp [figure]
  rw [parse?, hsign]
  dsimp only
  rw [name?_of_mem hpoint, Option.none_or, number?_figure h]

/-- A number of hundredths is shown as a figure. -/
theorem toList_hundredthsText (v : UInt32) :
    (hundredthsText v).toList = figure (v.toNat / 100) (v.toNat % 100) := by
  have hdigit {d : ℕ} (h : d < 10) : d.repr.toList = [Nat.digitChar d] := by
    rw [Nat.toList_repr, Nat.toDigits_of_lt_base h]
  have htens := hdigit (show v.toNat % 100 / 10 < 10 by omega)
  have hones := hdigit (show v.toNat % 100 % 10 < 10 by omega)
  change (Nat.repr (v.toNat / 100) ++ "." ++ Nat.repr (v.toNat % 100 / 10) ++
    Nat.repr (v.toNat % 100 % 10)).toList = _
  rw [String.toList_append, String.toList_append, String.toList_append, Nat.toList_repr, htens,
    hones, figure, List.append_assoc, List.append_assoc]
  rfl

/-- The figure that is shown is one that was written exactly if the numbers of
    hundredths agree. -/
theorem toList_hundredthsText_eq_iff {v : UInt32} (h : cents < 100) :
    (hundredthsText v).toList = figure whole cents ↔ v.toNat = 100 * whole + cents := by
  rw [toList_hundredthsText]
  constructor
  · intro heq
    have hparse : parse? (figure (v.toNat / 100) (v.toNat % 100)) =
        some (.number false (100 * (v.toNat / 100) + v.toNat % 100) (-2)) :=
      parse?_figure (Nat.mod_lt _ (by decide))
    rw [heq, parse?_figure h] at hparse
    simp only [Option.some.injEq, number.injEq] at hparse
    omega
  · intro heq
    rw [heq]
    congr 1 <;> omega

end Decimal

/-! ## What is read -/

namespace Proc

open Decimal

variable {whole cents : ℕ}

/-- A figure of 32 bits is read as its hundredths, or as one less if it falls
    short. -/
theorem toNat_hundredths_figure (h : cents < 100) (hfits : 100 * whole + cents < 2 ^ 32) :
    (hundredths (figure whole cents)).toNat = readAs (100 * whole + cents) := by
  rw [hundredths, parse?_figure h, Option.map_some, Option.getD_some]
  exact toNat_toHundredths hfits

theorem uptime_of_head? {text field : List Char} (h : (Text.words text).head? = some field) :
    uptime text = hundredths field := by
  rw [uptime, h]
  rfl

theorem loadAverages_of_getElem? {text field : List Char} {slot : Fin 3}
    (h : (Text.words text)[slot.val]? = some field) :
    (loadAverages text)[slot] = hundredths field := by
  have hread : (((Text.words text).take 3).map hundredths)[slot.val]? = some (hundredths field) := by
    rw [List.getElem?_map, List.getElem?_take, if_pos slot.isLt, h, Option.map_some]
  have hslot : (loadAverages text)[slot] =
      (((Text.words text).take 3).map hundredths)[slot.val]?.getD 0 := by
    match slot with
    | 0 | 1 | 2 => rfl
  rw [hslot, hread, Option.getD_some]

/-- An uptime or a load average that was written with two places, as so many
    hundredths as fit in 32 bits, is read as that many, or as one less if it
    falls short. A manager is shown what was read, as a text and, as far as it
    fits, as a number, so the text is the one that was written exactly if it
    does not fall short. -/
theorem reads_figures (h : cents < 100) (hfits : 100 * whole + cents < 2 ^ 32) :
    (∀ text, (Text.words text).head? = some (figure whole cents) →
      (uptime text).toNat = readAs (100 * whole + cents)) ∧
    ∀ (text : List Char) (slot : Fin 3) (s : Snapshot),
      (Text.words text)[slot.val]? = some (figure whole cents) → s.load = loadAverages text →
      s.load[slot].toNat = readAs (100 * whole + cents) ∧
      (∃ shown : String, (Metric.load slot .text).sample s = .ofString shown ∧
        shown.toList = figure (readAs (100 * whole + cents) / 100)
          (readAs (100 * whole + cents) % 100) ∧
        (shown.toList = figure whole cents ↔ ¬FallsShort (100 * whole + cents))) ∧
      ∃ number : Int32, (Metric.load slot .integer).sample s = .integer number ∧
        number.toInt = (min (readAs (100 * whole + cents)) (2 ^ 31 - 1) : ℕ) := by
  have hread := toNat_hundredths_figure h hfits
  refine ⟨fun text htext => ?_, fun text slot s htext hload => ?_⟩
  · rw [uptime_of_head? htext, hread]
  · have hslot : s.load[slot].toNat = readAs (100 * whole + cents) := by
      rw [hload, loadAverages_of_getElem? htext, hread]
    have hcell : s.load[slot.val]?.getD 0 = s.load[slot] := by
      rw [Vector.getElem?_eq_getElem slot.isLt, Option.getD_some]
      rfl
    refine ⟨hslot, ⟨hundredthsText s.load[slot], ?_, ?_, ?_⟩, clampInt32 s.load[slot], ?_, ?_⟩
    · rw [← hcell]
      rfl
    · rw [toList_hundredthsText, hslot]
    · rw [toList_hundredthsText_eq_iff h, hslot, readAs_eq_iff]
    · rw [← hcell]
      rfl
    · rw [← hslot]
      exact Int32.toInt_ofNat_of_lt ((Nat.min_le_right _ _).trans_lt (by decide))

/-- A host that has just started, and the middle one of its load averages. -/
theorem reads_figures_start :
    5 < 100 ∧ 100 * 1 + 5 < 2 ^ 32 ∧
      (uptime "1.05 0.20\n".toList).toNat = 105 ∧
      (loadAverages "0.52 1.05 2.00 1/234 5678\n".toList)[1].toNat = 105 ∧
      (Metric.load 1 .text).sample
        { load := loadAverages "0.52 1.05 2.00 1/234 5678\n".toList } = .ofString "1.05" ∧
      (Metric.load 1 .integer).sample
        { load := loadAverages "0.52 1.05 2.00 1/234 5678\n".toList } = .integer 105 := by
  have hexact : readAs (100 * 1 + 5) = 105 := by decide +kernel
  obtain ⟨huptime, hload⟩ := @reads_figures 1 5 (by decide) (by decide)
  obtain ⟨hslot, ⟨shown, htext, hshown, -⟩, number, hinteger, hnumber⟩ :=
    hload "0.52 1.05 2.00 1/234 5678\n".toList 1
      { load := loadAverages "0.52 1.05 2.00 1/234 5678\n".toList } (by decide +kernel) rfl
  rw [hexact] at huptime hslot hshown hnumber
  obtain rfl : shown = "1.05" := String.toList_injective (hshown.trans (by decide +kernel))
  obtain rfl : number = 105 := Int32.toInt.inj hnumber
  exact ⟨by decide, by decide, huptime _ (by decide +kernel), hslot, htext, hinteger⟩

/-- Not every load average is read as it was written: 0.29 is a little less in
    double precision, and so is its product with a hundred. -/
theorem loadAverages_falls_short :
    (Text.words "0.29 0.30 0.31 1/234 5678\n".toList)[0]? = some (figure 0 29) ∧
      (loadAverages "0.29 0.30 0.31 1/234 5678\n".toList)[0] = 28 ∧
      (Metric.load 0 .text).sample
        { load := loadAverages "0.29 0.30 0.31 1/234 5678\n".toList } = .ofString "0.28" ∧
      (Metric.load 0 .integer).sample
        { load := loadAverages "0.29 0.30 0.31 1/234 5678\n".toList } = .integer 28 := by
  decide +kernel

end Proc

end SnmpAgent
