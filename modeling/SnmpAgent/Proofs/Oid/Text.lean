import SnmpAgent.Proofs.Oid.Wire
import SnmpAgent.Proofs.Text.Fields
import Mathlib.Data.List.Forall2

/-!
# The texts of identifiers

A text is read as an identifier if it lists decimal numbers of 32 bits, each
after a dot, as many as an identifier may have, and if the first two of them
pack into one octet. Apart from leading zeros an identifier has one such text,
and that is the one that is written.

* `SubidText`, `DottedText`: the texts of sub-identifiers and of identifiers;
* `parse_eq_ok_iff`: what is read is what has the text;
* `parse_toString`: the text that is written for an identifier is read as the
  identifier if it is valid, and refused for the same reason otherwise;
* `parse_exact`: both, for all texts and all identifiers.
-/

namespace SnmpAgent.Oid

open Text

/-! ## Sub-identifiers -/

/-- The texts of a sub-identifier: decimal digits, at least one, that denote
    it. -/
structure SubidText (field : List Char) (subid : UInt32) : Prop where
  ne_nil : field ≠ []
  digits : ∀ c ∈ field, c.isDigit
  value_eq : Nat.ofDigitChars 10 field 0 = subid.toNat

variable {field : List Char} {fields : List (List Char)} {subid : UInt32} {subids : List UInt32}

/-- A dot is no digit. -/
theorem SubidText.dot_notMem (h : SubidText field subid) : '.' ∉ field := fun hdot =>
  absurd (h.digits '.' hdot) (by decide)

/-- The text that is written for a sub-identifier is one of its texts. -/
theorem subidText_toDigits (subid : UInt32) : SubidText (Nat.toDigits 10 subid.toNat) subid :=
  ⟨Nat.toDigits_ne_nil, fun _ hc => Nat.isDigit_of_mem_toDigits (by decide) (by decide) hc,
    Nat.ofDigitChars_ten_toDigits⟩

/-- Sub-identifiers are read from their texts and from nothing else. -/
theorem parseSubid_eq_ok_iff : parseSubid field = .ok subid ↔ SubidText field subid := by
  rw [parseSubid]
  have hlt : subid.toNat < 1 <<< 32 := subid.toNat_lt
  constructor
  · intro h
    split at h
    · rename_i n hn
      split_ifs at h with hsmall
      cases h
      obtain ⟨hne, hdigits, hvalue⟩ := decimal?_eq_some_iff.1 hn
      exact ⟨hne, hdigits, hvalue.trans (UInt32.toNat_ofNat_of_lt' hsmall).symm⟩
    · cases h
  · rintro ⟨hne, hdigits, hvalue⟩
    rw [decimal?_eq_some_iff.2 ⟨hne, hdigits, hvalue⟩]
    dsimp only
    rw [if_pos hlt, UInt32.ofNat_toNat]

/-- As many sub-identifiers are read as there is room for, each from one of its
    texts. -/
theorem parseSubids_eq_ok_iff {total room : Nat} : parseSubids total room fields = .ok subids ↔
    fields.length ≤ room ∧ List.Forall₂ SubidText fields subids := by
  induction fields generalizing room subids with
  | nil =>
    rw [parseSubids, List.forall₂_nil_left_iff]
    constructor
    · intro h
      cases h
      exact ⟨Nat.zero_le room, rfl⟩
    · rintro ⟨-, rfl⟩
      rfl
  | cons field fields ih =>
    cases room with
    | zero =>
      refine iff_of_false (fun h => by cases h) ?_
      rintro ⟨hlength, -⟩
      exact absurd hlength (Nat.not_succ_le_zero _)
    | succ room =>
      rw [parseSubids]
      constructor
      · intro h
        obtain ⟨subid, hsubid, h⟩ := except_bind_eq_ok.1 h
        obtain ⟨rest, hrest, h⟩ := except_bind_eq_ok.1 h
        cases h
        obtain ⟨hlength, htexts⟩ := ih.1 hrest
        exact ⟨Nat.succ_le_succ hlength, .cons (parseSubid_eq_ok_iff.1 hsubid) htexts⟩
      · rintro ⟨hlength, htexts⟩
        cases htexts with
        | cons htext htexts =>
          rw [parseSubid_eq_ok_iff.2 htext]
          simp only [bind, Except.bind, ih.2 ⟨Nat.le_of_succ_le_succ hlength, htexts⟩]
          rfl

/-- Where there are more texts of sub-identifiers than there is room for, they
    are refused. -/
theorem parseSubids_of_lt {total room : Nat} (htexts : List.Forall₂ SubidText fields subids)
    (h : room < fields.length) :
    parseSubids total room fields = .error (.tooManySubids total maxSubids) := by
  induction htexts generalizing room with
  | nil => exact absurd h (Nat.not_lt_zero room)
  | cons htext _ ih =>
    cases room with
    | zero => rfl
    | succ room =>
      rw [parseSubids, parseSubid_eq_ok_iff.2 htext]
      simp only [bind, Except.bind, ih (Nat.lt_of_succ_lt_succ h)]

/-! ## Identifiers -/

/-- The texts of an identifier: the texts of 2 to `maxSubids` sub-identifiers,
    each after a dot, where the first two pack into one octet. -/
inductive DottedText : List Char → Oid → Prop where
  | mk {fields : List (List Char)} {first second : UInt32} {rest : List UInt32}
      (htexts : List.Forall₂ SubidText fields (first :: second :: rest))
      (hlength : rest.length + 2 ≤ maxSubids)
      (hpack : first.toNat * 40 + second.toNat ≤ maxFirstOctet) :
      DottedText (fields.flatMap ('.' :: ·)) ⟨first :: second :: rest⟩

variable {text : String} {rest : List Char} {o : Oid}

/-- What follows a dot in front is read field by field, and what is read is
    checked. -/
theorem parse_of_dot (htext : text.toList = '.' :: rest) (hrest : rest ≠ []) :
    parse text = do
      let subids ← parseSubids (split '.' rest).length maxSubids (split '.' rest)
      validate ⟨subids⟩
      return ⟨subids⟩ := by
  rw [parse, htext]
  dsimp only
  rw [if_neg (not_not_intro rfl), if_neg (by simpa using hrest)]

/-- Only a text with something behind a dot in front is read. -/
theorem exists_rest_of_parse (h : parse text = .ok o) :
    ∃ rest, text.toList = '.' :: rest ∧ rest ≠ [] := by
  rw [parse] at h
  split at h
  · cases h
  · rename_i c rest htext
    split_ifs at h with hdot hempty
    exact ⟨rest, by rw [htext, not_not.1 hdot], by simpa using hempty⟩

/-- What is read behind a dot is the valid identifier whose sub-identifiers the
    fields are. -/
theorem parse_of_dot_eq_ok_iff (htext : text.toList = '.' :: rest) (hrest : rest ≠ []) :
    parse text = .ok o ↔ List.Forall₂ SubidText (split '.' rest) o.subids ∧ o.validate = .ok () := by
  rw [parse_of_dot htext hrest]
  constructor
  · intro h
    obtain ⟨subids, hsubids, h⟩ := except_bind_eq_ok.1 h
    obtain ⟨_, hvalid, h⟩ := except_bind_eq_ok.1 h
    cases h
    exact ⟨(parseSubids_eq_ok_iff.1 hsubids).2, hvalid⟩
  · rintro ⟨htexts, hvalid⟩
    have hlength : (split '.' rest).length ≤ maxSubids := by
      obtain ⟨first, second, more, rfl, hlength, -⟩ := validate_eq_ok.1 hvalid
      rw [htexts.length_eq]
      exact hlength
    rw [parseSubids_eq_ok_iff.2 ⟨hlength, htexts⟩]
    simp only [bind, Except.bind, hvalid]
    rfl

/-- What is read is valid. -/
theorem validate_of_parse (h : parse text = .ok o) : o.validate = .ok () := by
  obtain ⟨rest, htext, hrest⟩ := exists_rest_of_parse h
  exact ((parse_of_dot_eq_ok_iff htext hrest).1 h).2

/-- The texts of sub-identifiers, each after a dot, are a text that is split
    into them. -/
theorem exists_rest_of_texts (htexts : List.Forall₂ SubidText fields subids) (hne : subids ≠ []) :
    ∃ rest, fields.flatMap ('.' :: ·) = '.' :: rest ∧ rest ≠ [] ∧ split '.' rest = fields := by
  cases htexts with
  | nil => exact absurd rfl hne
  | @cons field subid fields subids htext htexts =>
    refine ⟨field ++ fields.flatMap ('.' :: ·), List.flatMap_cons, ?_, ?_⟩
    · exact List.append_ne_nil_of_left_ne_nil htext.ne_nil _
    · have hall : List.Forall₂ (fun field subid => '.' ∉ field ∧ SubidText field subid)
          (field :: fields) (subid :: subids) :=
        (List.Forall₂.cons htext htexts).imp fun _ _ h => ⟨h.dot_notMem, h⟩
      exact split_of_flatMap List.flatMap_cons ((List.forall₂_and_left _ _).1 hall).1

/-- Identifiers are read from their texts and from nothing else. -/
theorem parse_eq_ok_iff : parse text = .ok o ↔ DottedText text.toList o := by
  constructor
  · intro h
    obtain ⟨rest, htext, hrest⟩ := exists_rest_of_parse h
    obtain ⟨htexts, hvalid⟩ := (parse_of_dot_eq_ok_iff htext hrest).1 h
    obtain ⟨first, second, more, rfl, hlength, hpack⟩ := validate_eq_ok.1 hvalid
    rw [htext, ← flatMap_split]
    exact .mk htexts hlength hpack
  · generalize htext : text.toList = chars
    rintro ⟨htexts, hlength, hpack⟩
    rename_i fields first second more
    obtain ⟨rest, hjoined, hrest, hsplit⟩ := exists_rest_of_texts htexts (List.cons_ne_nil _ _)
    refine (parse_of_dot_eq_ok_iff (htext.trans hjoined) hrest).2 ⟨?_, ?_⟩
    · rw [hsplit]
      exact htexts
    · exact validate_eq_ok.2 ⟨first, second, more, rfl, hlength, hpack⟩

/-! ## The text that is written -/

/-- The text of an identifier lists the digits of its sub-identifiers, each
    after a dot. -/
theorem toList_toString (o : Oid) : o.toString.toList =
    (o.subids.map fun subid => Nat.toDigits 10 subid.toNat).flatMap ('.' :: ·) := by
  have hfold : ∀ (subids : List UInt32) (text : String),
      (subids.foldl (fun text subid => text ++ "." ++ Nat.repr subid.toNat) text).toList =
        text.toList ++ (subids.map fun subid => Nat.toDigits 10 subid.toNat).flatMap ('.' :: ·) := by
    intro subids
    induction subids with
    | nil => simp
    | cons subid subids ih =>
      intro text
      rw [List.foldl_cons, ih, String.toList_append, String.toList_append, Nat.toList_repr]
      simp
  rw [Oid.toString, hfold]
  rfl

/-- The text of an identifier is read as that identifier if it is valid, and is
    refused for what is wrong with it otherwise. -/
theorem parse_toString (hne : o.subids ≠ []) : parse o.toString = o.validate.map fun _ => o := by
  have htexts : List.Forall₂ SubidText (o.subids.map fun subid => Nat.toDigits 10 subid.toNat)
      o.subids :=
    List.forall₂_map_left_iff.2 (List.forall₂_same.2 fun subid _ => subidText_toDigits subid)
  obtain ⟨rest, hjoined, hrest, hsplit⟩ := exists_rest_of_texts htexts hne
  rw [parse_of_dot ((toList_toString o).trans hjoined) hrest, hsplit]
  rcases Nat.lt_or_ge maxSubids o.subids.length with hlong | hroom
  · -- The first field beyond the limit is refused with the number of all, as they are by the check.
    obtain ⟨first, second, more, ho⟩ : ∃ first second more, o.subids = first :: second :: more := by
      match o.subids, hlong with
      | first :: second :: more, _ => exact ⟨first, second, more, rfl⟩
    have hfault : o.validate = .error (.tooManySubids o.length maxSubids) := by
      rw [validate, ho]
      exact if_pos hlong
    rw [parseSubids_of_lt htexts (by simpa using hlong), List.length_map, hfault]
    rfl
  · rw [parseSubids_eq_ok_iff.2 ⟨by simpa using hroom, htexts⟩]
    change (o.validate >>= fun _ => .ok o) = _
    cases o.validate <;> rfl

/-- Texts are read exactly as the identifiers whose texts they are. The text
    that is written for an identifier is one of its texts exactly if the
    identifier is valid, and is refused otherwise: for what is wrong with the
    identifier, or as an empty text. -/
theorem parse_exact :
    (∀ (text : String) (o : Oid), parse text = .ok o ↔ DottedText text.toList o) ∧
    ∀ o : Oid, (parse o.toString = .ok o ↔ o.validate = .ok ()) ∧
      ∀ fault, o.validate = .error fault →
        parse o.toString = .error (if o.subids = [] then .empty else fault) := by
  refine ⟨fun _ _ => parse_eq_ok_iff, fun o => ?_⟩
  by_cases hne : o.subids = []
  · have hempty : parse o.toString = .error .empty := by
      rw [Oid.toString, hne]
      rfl
    have hshort : o.validate = .error .tooShort := by
      rw [validate, hne]
    rw [hempty, hshort]
    exact ⟨iff_of_false (fun h => by cases h) (fun h => by cases h), fun _ _ => by rw [if_pos hne]⟩
  · rw [parse_toString hne]
    cases o.validate with
    | ok => exact ⟨iff_of_true rfl rfl, fun _ h => by cases h⟩
    | error fault =>
      refine ⟨iff_of_false (fun h => by cases h) (fun h => by cases h), fun fault' h => ?_⟩
      cases h
      rw [if_neg hne]
      rfl

/-- Leading zeros do not matter, however many. -/
example : parse ".001.3.0000000000006" = .ok ⟨[1, 3, 6]⟩ := by decide +kernel

end SnmpAgent.Oid
