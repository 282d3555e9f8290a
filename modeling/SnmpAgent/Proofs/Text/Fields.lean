import SnmpAgent.Text.Fields
import SnmpAgent.Text.Digits
import Mathlib.Tactic.SplitIfs

/-!
# Fields and digits

A text is split into the fields that it is joined from, and no text is lost in
splitting. A field that is a number is read as the number that its digits
denote, leading zeros or not.

* `splitWhere_eq_splitOnP`, `split_eq_splitOn`: splitting is the one of the library;
* `flatMap_split`, `split_of_flatMap`: splitting undoes the joining of fields
  without separators, and joining undoes splitting;
* `decimal?_eq_some_iff`: the texts that are read as a decimal number.
-/

namespace SnmpAgent.Text

/-! ## Fields -/

section

variable {separator : Char} {text : List Char} {fields : List (List Char)}

theorem splitWhere_eq_splitOnP (isSeparator : Char → Bool) (text : List Char) :
    splitWhere isSeparator text = text.splitOnP isSeparator := by
  induction text with
  | nil => rfl
  | cons c cs ih =>
    rw [splitWhere, List.splitOnP_cons_eq_if_modifyHead, ih]
    split_ifs with hc
    · rfl
    · -- The rest of the text has a first field, to which the character is put.
      obtain ⟨field, fields, hfields⟩ :=
        List.exists_cons_of_ne_nil (List.splitOnP_ne_nil isSeparator cs)
      rw [hfields]
      rfl

theorem split_eq_splitOn (separator : Char) (text : List Char) :
    split separator text = text.splitOn separator :=
  splitWhere_eq_splitOnP _ text

theorem split_ne_nil (separator : Char) (text : List Char) : split separator text ≠ [] :=
  splitWhere_ne_nil _ text

/-- Fields that each follow a separator are the fields that are joined by it,
    after one more. -/
theorem flatMap_eq_intercalate (h : fields ≠ []) :
    fields.flatMap (separator :: ·) = separator :: [separator].intercalate fields := by
  induction fields with
  | nil => exact absurd rfl h
  | cons field fields ih =>
    cases fields with
    | nil => simp
    | cons field' fields =>
      rw [List.flatMap_cons, ih (List.cons_ne_nil _ _)]
      simp [List.intercalate]

/-- The fields of a text, each after a separator, are the text after a
    separator. -/
theorem flatMap_split (separator : Char) (text : List Char) :
    (split separator text).flatMap (separator :: ·) = separator :: text := by
  rw [flatMap_eq_intercalate (split_ne_nil separator text), split_eq_splitOn,
    List.intercalate_splitOn]

/-- A text that is fields without separators, each after a separator, is split
    into them. -/
theorem split_of_flatMap (h : fields.flatMap (separator :: ·) = separator :: text)
    (hfields : ∀ field ∈ fields, separator ∉ field) : split separator text = fields := by
  have hne : fields ≠ [] := by
    rintro rfl
    cases h
  rw [flatMap_eq_intercalate hne] at h
  rw [← (List.cons.inj h).2, split_eq_splitOn, List.splitOn_intercalate separator hfields hne]

end

/-! ## Digits -/

section

variable {c : Char} {text : List Char} {n d : Nat}

theorem decimalDigit?_of_isDigit (h : c.isDigit) :
    decimalDigit? c = some (c.toNat - '0'.toNat) := by
  have hrange : '0' ≤ c ∧ c ≤ '9' := by
    simpa [Char.isDigit, Char.le_def] using h
  rw [decimalDigit?, if_pos hrange]

theorem isDigit_of_decimalDigit? (h : decimalDigit? c = some d) : c.isDigit := by
  rw [decimalDigit?] at h
  split_ifs at h with hrange
  simpa [Char.isDigit, Char.le_def] using hrange

/-- The digits of a text are the values of its characters, if all of them are
    digits. -/
theorem mapM_decimalDigit? (h : ∀ c ∈ text, c.isDigit) :
    text.mapM decimalDigit? = some (text.map fun c => c.toNat - '0'.toNat) := by
  induction text with
  | nil => rfl
  | cons c cs ih =>
    obtain ⟨hc, hcs⟩ := List.forall_mem_cons.1 h
    rw [List.mapM_cons, decimalDigit?_of_isDigit hc, ih hcs]
    rfl

theorem forall_isDigit_of_mapM {digits : List Nat} (h : text.mapM decimalDigit? = some digits) :
    ∀ c ∈ text, c.isDigit := by
  induction text generalizing digits with
  | nil => exact fun _ hc => absurd hc List.not_mem_nil
  | cons c cs ih =>
    rw [List.mapM_cons] at h
    obtain ⟨d, hd, h⟩ := Option.bind_eq_some_iff.1 h
    obtain ⟨ds, hds, -⟩ := Option.bind_eq_some_iff.1 h
    exact List.forall_mem_cons.2 ⟨isDigit_of_decimalDigit? hd, ih hds⟩

/-- Digits denote the number that the library reads them as. -/
theorem horner_reverse (text : List Char) :
    horner 10 (text.map fun c => c.toNat - '0'.toNat).reverse = Nat.ofDigitChars 10 text 0 := by
  rw [horner, List.foldr_reverse, List.foldl_map, Nat.ofDigitChars_eq_foldl]
  simp only [Nat.add_comm]

/-- Exactly the texts of digits, at least one, are read as a decimal number, and
    as the one that they denote. -/
theorem decimal?_eq_some_iff : decimal? text = some n ↔
    text ≠ [] ∧ (∀ c ∈ text, c.isDigit) ∧ Nat.ofDigitChars 10 text 0 = n := by
  rw [decimal?, number?, digits?]
  constructor
  · intro h
    obtain ⟨digits, hdigits, rfl⟩ := Option.map_eq_some_iff.1 h
    split_ifs at hdigits with hempty
    have hall := forall_isDigit_of_mapM hdigits
    rw [mapM_decimalDigit? hall] at hdigits
    cases hdigits
    exact ⟨fun hnil => hempty (List.isEmpty_iff.2 hnil), hall, by
      rw [ofDigits_eq_horner, horner_reverse]⟩
  · rintro ⟨hne, hall, rfl⟩
    rw [if_neg (by simpa using hne), mapM_decimalDigit? hall, Option.map_some, ofDigits_eq_horner,
      horner_reverse]

end

end SnmpAgent.Text
