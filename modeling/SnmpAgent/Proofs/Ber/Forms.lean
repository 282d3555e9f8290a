import SnmpAgent.Proofs.Ber.Integers

/-!
# What readers accept

The same thing may be encoded in several ways: lengths and numbers need not be
as short as possible. Each encoding is a *form* of what it stands for, and a
reader accepts certain forms and nothing else. It is described completely by
the relation between these forms and what it makes of them (`Recognises`), or,
where it reads to the end of a container, by the relation between the whole
contents of the container and what it makes of these (`RecognisesAll`).

* `Length.Form`, `Element.Form`, `Integer.Form`, `Integer.UnsignedForm`: the
  forms of lengths, elements and numbers;
* `Recognises.bind`, `RecognisesAll.bind`: the forms for one reader after
  another are those for the one with those for the other behind them;
* `recognises_length`, `recognises_element`, `recognises_integer`: the forms
  that the readers of the agent accept;
* `Element.Form.eq_of_isPrefix`: no form of an element begins another one.
-/

namespace SnmpAgent

/-! ## Forms -/

/-- The forms of a length: an octet below 128, or one or two octets behind
    `0x81` or `0x82`. -/
inductive Length.Form : List UInt8 → Nat → Prop where
  | short {b : UInt8} (h : b < 0x80) : Form [b] b.toNat
  | oneOctet (b : UInt8) : Form [0x81, b] b.toNat
  | twoOctets (a b : UInt8) : Form [0x82, a, b] (a.toNat * 256 + b.toNat)

/-- The forms of an element with the tag `t`, whose content is a form of what it
    stands for: the tag, a form of the length of the content, and the content. -/
inductive Element.Form {α : Type} (t : Tag) (Content : List UInt8 → α → Prop) :
    List UInt8 → α → Prop where
  | mk {l content : List UInt8} {a : α} (hlength : Length.Form l content.length)
      (hcontent : Content content a) : Form t Content (t :: (l ++ content)) a

/-- The contents of an INTEGER: one to four octets, the first of which has the
    sign. -/
structure Integer.Form (content : List UInt8) (v : Int32) : Prop where
  ne_nil : content ≠ []
  length_le : content.length ≤ 4
  value_eq : signedValue content = v.toInt

/-- The contents of an unsigned number: at most `max` octets, none of which has
    a sign. -/
structure Integer.UnsignedForm (max : Nat) (content : List UInt8) (n : Nat) : Prop where
  ne_nil : content ≠ []
  length_le : content.length ≤ max
  value_eq : unsignedValue content = n

namespace Length

/-- No form of a length has more than three octets. -/
theorem Form.length_le {l : List UInt8} {n : Nat} (h : Form l n) : l.length ≤ 3 := by
  cases h <;> simp

theorem Form.ne_nil {l : List UInt8} {n : Nat} (h : Form l n) : l ≠ [] := by
  cases h <;> exact List.cons_ne_nil _ _

/-- A form of a length is told from what follows it. -/
theorem Form.append_inj {l l' x y : List UInt8} {n n' : Nat} (h : Form l n) (h' : Form l' n')
    (he : l ++ x = l' ++ y) : l = l' ∧ n = n' := by
  -- The first octet tells how many follow.
  cases h with
  | short hb =>
    cases h' with
    | short => obtain ⟨rfl, -⟩ := List.cons.inj he; exact ⟨rfl, rfl⟩
    | oneOctet | twoOctets => obtain ⟨rfl, -⟩ := List.cons.inj he; exact absurd hb (by decide)
  | oneOctet b =>
    cases h' with
    | short hb => obtain ⟨rfl, -⟩ := List.cons.inj he; exact absurd hb (by decide)
    | oneOctet => simp at he; simp [he]
    | twoOctets => exact absurd (List.cons.inj he).1 (by decide)
  | twoOctets a b =>
    cases h' with
    | short hb => obtain ⟨rfl, -⟩ := List.cons.inj he; exact absurd hb (by decide)
    | oneOctet => exact absurd (List.cons.inj he).1 (by decide)
    | twoOctets => simp at he; simp [he]

/-- Lengths are read from their forms and from nothing else. -/
theorem decode_eq_ok_iff {data : List UInt8} {base n used : Nat} :
    decode data base = .ok (n, used) ↔
      ∃ l rest, Form l n ∧ data = l ++ rest ∧ used = l.length := by
  constructor
  · intro h
    cases data with
    | nil => cases h
    | cons first rest =>
      rw [decode] at h
      split_ifs at h with hshort
      · cases h
        exact ⟨[first], rest, .short hshort, rfl, rfl⟩
      · -- Only the octets 0x81 and 0x82 announce an acceptable number of octets.
        dsimp only at h
        split_ifs at h with hzero hmany hshort
        obtain ⟨rfl, rfl⟩ := Prod.mk.inj (Except.ok.inj h)
        obtain hone | htwo : first.toNat = 0x81 ∨ first.toNat = 0x82 := by omega
        · obtain rfl : first = 0x81 := UInt8.toNat_inj.1 hone
          rw [hone] at hshort
          cases rest with
          | nil => exact absurd (by decide) hshort
          | cons b rest => exact ⟨[0x81, b], rest, by simpa using Form.oneOctet b, rfl, rfl⟩
        · obtain rfl : first = 0x82 := UInt8.toNat_inj.1 htwo
          rw [htwo] at hshort
          rcases rest with _ | ⟨a, _ | ⟨b, rest⟩⟩
          · exact absurd (by simp) hshort
          · exact absurd (by simp) hshort
          · exact ⟨[0x82, a, b], rest, by simpa using Form.twoOctets a b, rfl, rfl⟩
  · rintro ⟨l, rest, hl, rfl, rfl⟩
    cases hl with
    | short hb => simp [decode, hb]
    | oneOctet b => simp [decode]
    | twoOctets a b =>
      have hrest : ¬rest.length + 1 + 1 < 2 := by omega
      simp [decode, hrest]

end Length

namespace Element

variable {α β : Type} {t : Tag} {C : List UInt8 → α → Prop} {D : List UInt8 → β → Prop}

/-- An element has two octets more than its content, at least. -/
theorem Form.exists_content {o : List UInt8} {a : α} (h : Form t C o a) :
    ∃ content, C content a ∧ content.length + 2 ≤ o.length := by
  obtain ⟨hl, hcontent⟩ := h
  rename_i l content
  have hpos := List.length_pos_iff.2 hl.ne_nil
  refine ⟨content, hcontent, ?_⟩
  rw [List.length_cons, List.length_append]
  omega

/-- No form of an element begins another one: where it ends is told from its
    first octets. -/
theorem Form.eq_of_isPrefix {t' : Tag} {o o' : List UInt8} {a : α} {b : β} (h : Form t C o a)
    (h' : Form t' D o' b) (hbegins : o <+: o') : o = o' := by
  obtain ⟨hl, -⟩ := h
  obtain ⟨hl', -⟩ := h'
  obtain ⟨rest, he⟩ := id hbegins
  have htail := (List.cons.inj he).2
  rw [List.append_eq, List.append_assoc] at htail
  obtain ⟨rfl, hlength⟩ := hl.append_inj hl' htail
  exact hbegins.eq_of_length (by simp [hlength])

end Element

/-! ## Readers of forms -/

/-- The reader takes exactly the forms, related by `F`, of what it gives. -/
def Recognises {α : Type} (r : Reader α) (F : List UInt8 → α → Prop) : Prop :=
  ∀ offset data a c, r ⟨offset, data⟩ = .ok a c ↔
    ∃ o rest, F o a ∧ data = o ++ rest ∧ c = ⟨offset + o.length, rest⟩

/-- In a container, the reader gives what the content is a form of, related by
    `F`. -/
def RecognisesAll {α : Type} (r : Reader α) (F : List UInt8 → α → Prop) : Prop :=
  ∀ offset content a, (∃ c, r ⟨offset, content⟩ = .ok a c) ↔ F content a

section Combinators

variable {α β : Type} {r : Reader α} {f : α → Reader β} {F F' : List UInt8 → α → Prop}
  {G : α → List UInt8 → β → Prop}

theorem Recognises.congr (h : Recognises r F) (hF : ∀ o a, F o a ↔ F' o a) : Recognises r F' := by
  intro offset data a c
  simp only [h offset data a c, hF]

theorem RecognisesAll.congr (h : RecognisesAll r F) (hF : ∀ o a, F o a ↔ F' o a) :
    RecognisesAll r F' := fun offset content a => (h offset content a).trans (hF content a)

theorem recognisesAll_pure (a : α) : RecognisesAll (pure a) fun _ b => a = b := by
  intro offset content b
  constructor
  · rintro ⟨c, h⟩
    cases h
    rfl
  · rintro rfl
    exact ⟨_, rfl⟩

theorem recognises_pure (a : α) : Recognises (pure a) fun o b => o = [] ∧ a = b := by
  intro offset data b c
  constructor
  · intro h
    cases h
    exact ⟨[], data, ⟨rfl, rfl⟩, rfl, rfl⟩
  · rintro ⟨_, rest, ⟨rfl, rfl⟩, rfl, rfl⟩
    rfl

theorem Recognises.bind (hr : Recognises r F) (hf : ∀ a, Recognises (f a) (G a)) :
    Recognises (r >>= f) fun o b => ∃ a o₁ o₂, F o₁ a ∧ G a o₂ b ∧ o = o₁ ++ o₂ := by
  intro offset data b c
  rw [bind_eq_ok]
  constructor
  · rintro ⟨a, t, ht, hc⟩
    obtain ⟨o₁, rest₁, h₁, rfl, rfl⟩ := (hr _ _ _ _).1 ht
    obtain ⟨o₂, rest₂, h₂, rfl, rfl⟩ := (hf a _ _ _ _).1 hc
    refine ⟨o₁ ++ o₂, rest₂, ⟨a, o₁, o₂, h₁, h₂, rfl⟩, (List.append_assoc _ _ _).symm, ?_⟩
    rw [List.length_append, Nat.add_assoc]
  · rintro ⟨_, rest, ⟨a, o₁, o₂, h₁, h₂, rfl⟩, rfl, rfl⟩
    refine ⟨a, ⟨offset + o₁.length, o₂ ++ rest⟩, (hr _ _ _ _).2 ?_, (hf a _ _ _ _).2 ?_⟩
    · exact ⟨o₁, o₂ ++ rest, h₁, List.append_assoc _ _ _, rfl⟩
    · exact ⟨o₂, rest, h₂, rfl, by rw [List.length_append, Nat.add_assoc]⟩

/-- A function of what a reader gives takes no further octets. -/
theorem Recognises.map (hr : Recognises r F) (g : α → β) :
    Recognises (do return g (← r)) fun o b => ∃ a, F o a ∧ g a = b := by
  refine (hr.bind fun a => recognises_pure (g a)).congr fun o b => ?_
  constructor
  · rintro ⟨a, o₁, _, h, ⟨rfl, hb⟩, rfl⟩
    exact ⟨a, by rwa [List.append_nil], hb⟩
  · rintro ⟨a, h, hb⟩
    exact ⟨a, o, [], h, ⟨rfl, hb⟩, (List.append_nil o).symm⟩

theorem RecognisesAll.bind (hr : Recognises r F) (hf : ∀ a, RecognisesAll (f a) (G a)) :
    RecognisesAll (r >>= f) fun o b => ∃ a o₁ o₂, F o₁ a ∧ G a o₂ b ∧ o = o₁ ++ o₂ := by
  intro offset content b
  constructor
  · rintro ⟨c, hc⟩
    obtain ⟨a, t, ht, hc⟩ := bind_eq_ok.1 hc
    obtain ⟨o₁, rest, h₁, rfl, rfl⟩ := (hr _ _ _ _).1 ht
    exact ⟨a, o₁, rest, h₁, (hf a _ _ _).1 ⟨c, hc⟩, rfl⟩
  · rintro ⟨a, o₁, o₂, h₁, h₂, rfl⟩
    obtain ⟨c, hc⟩ := (hf a (offset + o₁.length) o₂ b).2 h₂
    exact ⟨c, bind_eq_ok.2 ⟨a, _, (hr _ _ _ _).2 ⟨o₁, o₂, h₁, rfl, rfl⟩, hc⟩⟩

/-- A function of what a reader of a container gives needs nothing further of
    the container. -/
theorem RecognisesAll.map (hr : RecognisesAll r F) (g : α → β) :
    RecognisesAll (do return g (← r)) fun o b => ∃ a, F o a ∧ g a = b := by
  intro offset content b
  constructor
  · rintro ⟨c, hc⟩
    obtain ⟨a, t, ht, hb⟩ := bind_eq_ok.1 hc
    cases hb
    exact ⟨a, (hr _ _ _).1 ⟨_, ht⟩, rfl⟩
  · rintro ⟨a, h, rfl⟩
    obtain ⟨c, hc⟩ := (hr offset content a).2 h
    exact ⟨c, bind_of_ok hc⟩

namespace Reader

theorem recognises_offset {r : Nat → Reader α} (h : ∀ n, Recognises (r n) F) :
    Recognises (offset >>= r) F := fun n data a c => h n n data a c

theorem recognisesAll_offset {r : Nat → Reader α} (h : ∀ n, RecognisesAll (r n) F) :
    RecognisesAll (offset >>= r) F := fun n content a => h n n content a

/-- A reader that always fails takes no forms. -/
theorem recognises_failure (h : ∀ c a c', r c ≠ .ok a c') : Recognises r fun _ _ => False := by
  intro offset data a c
  simp [h]

theorem recognises_fail (fault : DecodeFault) :
    Recognises (fail fault : Reader α) fun _ _ => False :=
  recognises_failure fun _ _ _ h => by cases h

/-- It reads no contents either. -/
theorem recognisesAll_failure (h : ∀ c a c', r c ≠ .ok a c') : RecognisesAll r fun _ _ => False := by
  intro offset content a
  simp [h]

theorem recognisesAll_fail (fault : DecodeFault) :
    RecognisesAll (fail fault : Reader α) fun _ _ => False :=
  recognisesAll_failure fun _ _ _ h => by cases h

theorem recognisesAll_failAt (start : Nat) (fault : DecodeFault) :
    RecognisesAll (failAt start fault : Reader α) fun _ _ => False :=
  recognisesAll_failure fun _ _ _ h => by cases h

theorem recognises_failAt (start : Nat) (fault : DecodeFault) :
    Recognises (failAt start fault : Reader α) fun _ _ => False :=
  recognises_failure fun _ _ _ h => by cases h

theorem recognises_ofExcept (e : Except DecodeError α) :
    Recognises (ofExcept e) fun o a => o = [] ∧ e = .ok a := by
  cases e with
  | ok a =>
    refine (recognises_pure a).congr fun o b => and_congr_right fun _ => ?_
    exact ⟨congrArg Except.ok, Except.ok.inj⟩
  | error e =>
    refine (recognises_failure fun _ _ _ h => by cases h).congr fun o a => iff_of_false id ?_
    rintro ⟨-, h⟩
    cases h

theorem recognises_octet : Recognises octet fun o b => o = [b] := by
  intro offset data b c
  cases data with
  | nil => simp [octet]
  | cons x data =>
    constructor
    · intro h
      cases h
      exact ⟨_, data, rfl, rfl, rfl⟩
    · rintro ⟨_, rest, rfl, he, rfl⟩
      cases he
      rfl

theorem recognises_octets (n : Nat) : Recognises (octets n) fun o a => o.length = n ∧ o = a := by
  intro offset data a c
  constructor
  · intro h
    rw [octets] at h
    split_ifs at h with hle
    cases h
    have hlength : (data.take n).length = n := List.length_take_of_le hle
    refine ⟨data.take n, data.drop n, ⟨hlength, rfl⟩, (List.take_append_drop n data).symm, ?_⟩
    rw [hlength]
    rfl
  · rintro ⟨o, rest, ⟨rfl, rfl⟩, rfl, rfl⟩
    exact takes_octets o offset rest

theorem recognises_length : Recognises length Length.Form := by
  intro offset data n c
  rw [length]
  constructor
  · intro h
    split at h
    · rename_i m used hdecode
      cases h
      obtain ⟨l, rest, hl, rfl, rfl⟩ := Length.decode_eq_ok_iff.1 hdecode
      exact ⟨l, rest, hl, rfl, by simp [Cursor.skip]⟩
    · cases h
  · rintro ⟨l, rest, hl, rfl, rfl⟩
    have hdecode : Length.decode (l ++ rest) offset = .ok (n, l.length) :=
      Length.decode_eq_ok_iff.2 ⟨l, rest, hl, rfl, rfl⟩
    simp [hdecode, Cursor.skip]

theorem recognises_expectTag (t : Tag) :
    Recognises (expectTag t) fun o n => ∃ l, Length.Form l n ∧ o = t :: l := by
  refine recognises_offset fun start => ?_
  have hlength : ∀ b : UInt8, Recognises
      (if b = t then length else failAt start (.unexpectedTag t b))
      fun o n => b = t ∧ Length.Form o n := by
    intro b
    split_ifs with h
    · exact recognises_length.congr fun o n => (and_iff_right h).symm
    · exact (recognises_failAt _ _).congr fun o n => by simp [h]
  refine (recognises_octet.bind hlength).congr fun o n => ?_
  constructor
  · rintro ⟨b, _, l, rfl, ⟨rfl, hl⟩, rfl⟩
    exact ⟨l, hl, rfl⟩
  · rintro ⟨l, hl, rfl⟩
    exact ⟨t, [t], l, rfl, ⟨rfl, hl⟩, rfl⟩

/-- A reader of a tag and then of a content takes the forms of elements. -/
theorem recognises_element {t : Tag} {r : Nat → Reader α}
    (h : ∀ n, Recognises (r n) fun content a => content.length = n ∧ F content a) :
    Recognises (expectTag t >>= r) (Element.Form t F) := by
  refine ((recognises_expectTag t).bind h).congr fun o a => ?_
  constructor
  · rintro ⟨n, _, content, ⟨l, hl, rfl⟩, ⟨rfl, hcontent⟩, rfl⟩
    exact .mk hl hcontent
  · rintro ⟨hl, hcontent⟩
    exact ⟨_, _, _, ⟨_, hl, rfl⟩, ⟨rfl, hcontent⟩, rfl⟩

/-- A NULL is an element without content. -/
theorem recognises_null :
    Recognises null (Element.Form Tag.null fun content (_ : Unit) => content = []) := by
  refine recognises_element fun n => ?_
  split_ifs with hn
  · refine (recognises_pure ()).congr fun content u => ?_
    rw [hn, List.length_eq_zero_iff]
    exact and_congr_right fun h => iff_of_true rfl h
  · refine (recognises_fail _).congr fun content u => iff_of_false id ?_
    rintro ⟨hlength, rfl⟩
    exact hn hlength.symm

/-- A reader in a container that was split off takes the content of the
    container. -/
theorem recognises_split_inside (h : RecognisesAll r F) (n : Nat) :
    Recognises (do let container ← split n; inside container r)
      fun content a => content.length = n ∧ F content a := by
  -- What is read inside takes nothing from what is outside.
  have hinside : ∀ start content, Recognises (inside ⟨start, content⟩ r)
      fun o a => o = [] ∧ F content a := by
    intro start content offset data a c
    rw [inside]
    constructor
    · intro hc
      split at hc
      · rename_i b c' hr
        cases hc
        exact ⟨[], data, ⟨rfl, (h start content a).1 ⟨c', hr⟩⟩, rfl, rfl⟩
      · cases hc
    · rintro ⟨_, rest, ⟨rfl, hF⟩, rfl, rfl⟩
      obtain ⟨c', hc'⟩ := (h start content a).2 hF
      rw [hc']
      rfl
  have hsplit : ∀ start : Nat, Recognises (do
      let container ← (do return ⟨start, ← octets n⟩ : Reader Cursor)
      inside container r) fun content a => content.length = n ∧ F content a := by
    intro start
    refine (((recognises_octets n).map (Cursor.mk start)).bind
      (G := fun c o a => o = [] ∧ F c.rest a) fun c => hinside c.offset c.rest).congr ?_
    intro o a
    constructor
    · rintro ⟨_, content, _, ⟨_, ⟨hn, rfl⟩, rfl⟩, ⟨rfl, hF⟩, rfl⟩
      exact ⟨by rwa [List.append_nil], by rwa [List.append_nil]⟩
    · rintro ⟨hn, hF⟩
      exact ⟨⟨start, o⟩, o, [], ⟨o, ⟨hn, rfl⟩, rfl⟩, ⟨rfl, hF⟩, (List.append_nil o).symm⟩
  unfold split
  rw [bind_assoc]
  exact recognises_offset hsplit

/-- A constructed element is recognised by a reader of its content. -/
theorem recognises_inside {t : Tag} (h : RecognisesAll r F) :
    Recognises (do let container ← constructed t; inside container r) (Element.Form t F) := by
  unfold constructed
  rw [bind_assoc]
  exact recognises_element fun n => recognises_split_inside h n

/-- A container that must be filled by an announced number of octets. -/
theorem recognisesAll_inside (h : RecognisesAll r F) (n : Nat) :
    RecognisesAll (do
      expectRemaining n
      let container ← split n
      inside container r) fun content a => content.length = n ∧ F content a := by
  intro offset content a
  constructor
  · rintro ⟨c, hc⟩
    obtain ⟨_, t, ht, hc⟩ := bind_eq_ok.1 hc
    rw [expectRemaining] at ht
    split_ifs at ht with hn
    cases ht
    obtain ⟨o, rest, ⟨ho, hF⟩, he, -⟩ := (recognises_split_inside h n _ _ _ _).1 hc
    have hrest : rest = [] := by
      have hlength := congrArg List.length he
      rw [List.length_append, ho] at hlength
      exact List.length_eq_zero_iff.1 (Nat.left_eq_add.1 (hn.symm.trans hlength))
    rw [hrest, List.append_nil] at he
    exact he ▸ ⟨ho, hF⟩
  · rintro ⟨hn, hF⟩
    have hread := (recognises_split_inside h n offset content a _).2
      ⟨content, [], ⟨hn, hF⟩, (List.append_nil content).symm, rfl⟩
    have hall : expectRemaining n ⟨offset, content⟩ = .ok () ⟨offset, content⟩ := if_pos hn
    exact ⟨_, (bind_of_ok hall).trans hread⟩

/-- A reader may look whether anything is left in its container. -/
theorem recognisesAll_isEmpty {r' : Reader α} (h : RecognisesAll r F) (h' : RecognisesAll r' F') :
    RecognisesAll (do if ← isEmpty then r else r')
      fun o a => if o = [] then F o a else F' o a := by
  intro offset content a
  rw [bind_of_ok (x := isEmpty) rfl]
  cases content with
  | nil => exact h offset [] a
  | cons b content => exact h' offset (b :: content) a

/-- A container that is used up has nothing left. -/
theorem recognisesAll_expectRemaining (a : α) :
    RecognisesAll (do expectRemaining 0; return a) fun o b => o = [] ∧ a = b := by
  intro offset content b
  constructor
  · rintro ⟨c, hc⟩
    obtain ⟨_, t, ht, hc⟩ := bind_eq_ok.1 hc
    rw [expectRemaining] at ht
    split_ifs at ht with hn
    cases hc
    exact ⟨List.length_eq_zero_iff.1 hn, rfl⟩
  · rintro ⟨rfl, rfl⟩
    exact ⟨_, rfl⟩

end Reader

end Combinators

/-! ## Numbers -/

namespace Reader

open Integer

theorem recognises_integerContent (n : Nat) :
    Recognises (integerContent n) fun content v => content.length = n ∧ Integer.Form content v := by
  unfold integerContent
  split_ifs with hzero hlong
  · refine (recognises_fail _).congr fun content v => (iff_of_false id ?_)
    rintro ⟨rfl, hv⟩
    exact hv.ne_nil (List.length_eq_zero_iff.1 hzero)
  · refine (recognises_fail _).congr fun content v => (iff_of_false id ?_)
    rintro ⟨rfl, hv⟩
    exact absurd hv.length_le (Nat.not_le.2 hlong)
  · refine ((recognises_octets n).map _).congr fun content v => ?_
    -- Four octets do not denote more than a number of 32 bits.
    have hrange : content.length = n → (Int32.ofInt (signedValue content)).toInt =
        signedValue content := by
      rintro rfl
      cases content with
      | nil => exact absurd rfl hzero
      | cons first rest =>
        obtain ⟨hlow, hhigh⟩ := signedValue_bounds first rest
        have hlength : rest.length ≤ 3 := by rw [List.length_cons] at hlong; omega
        have hpow : (256 : Int) ^ rest.length ≤ 256 ^ 3 := by
          exact_mod_cast Nat.pow_le_pow_right (by decide : 0 < 256) hlength
        exact Int32.toInt_ofInt_of_le (by omega) (by omega)
    constructor
    · rintro ⟨_, ⟨hn, rfl⟩, rfl⟩
      refine ⟨hn, ?_, by omega, (hrange hn).symm⟩
      rintro rfl
      exact hzero hn.symm
    · rintro ⟨hn, hv⟩
      exact ⟨content, ⟨hn, rfl⟩, Int32.toInt_inj.1 ((hrange hn).trans hv.value_eq)⟩

theorem recognises_integer : Recognises integer (Element.Form Tag.integer Integer.Form) :=
  recognises_element recognises_integerContent

/-- A content with one octet more than the number has digits begins with a
    zero. -/
theorem head?_eq_zero_iff {content : List UInt8} {k : Nat} (h : content.length ≤ k + 1) :
    (content.length = k + 1 → content.head? = some 0) ↔ unsignedValue content < 256 ^ k := by
  constructor
  · intro hhead
    rcases Nat.lt_or_eq_of_le h with hlt | heq
    · exact Nat.lt_of_lt_of_le (unsignedValue_lt content)
        (Nat.pow_le_pow_right (by decide) (Nat.le_of_lt_succ hlt))
    · cases content with
      | nil => cases heq
      | cons first rest =>
        obtain rfl : first = 0 := Option.some.inj (hhead heq)
        have hlt := unsignedValue_lt rest
        rw [Nat.succ.inj heq] at hlt
        rw [unsignedValue_cons]
        simpa using hlt
  · exact fun hvalue hlength => head?_of_unsignedValue_lt hlength hvalue

/-- Unsigned numbers of at most `8 * k` bits are read from contents with at most
    one octet more. -/
theorem recognises_unsignedContent (n k : Nat) : Recognises (unsignedContent n (k + 1))
    fun content v => content.length = n ∧ UnsignedForm (k + 1) content v ∧ v < 256 ^ k := by
  unfold unsignedContent
  split_ifs with hzero
  · refine (recognises_fail _).congr fun content v => (iff_of_false id ?_)
    rintro ⟨rfl, hv, -⟩
    exact hv.ne_nil (List.length_eq_zero_iff.1 hzero)
  · refine recognises_offset fun start => ?_
    -- A content may have an octet more than there is room for, if that is a zero.
    have hcheck : ∀ content : List UInt8, Recognises
        (if k + 1 < n ∨ (n = k + 1 ∧ content.head? ≠ some 0) then failAt start .integerOverflow
          else return unsignedValue content)
        fun o v => o = [] ∧ n ≤ k + 1 ∧ (n = k + 1 → content.head? = some 0) ∧
          unsignedValue content = v := by
      intro content
      split_ifs with h
      · refine (recognises_failAt _ _).congr fun o v => iff_of_false id ?_
        rintro ⟨-, hle, hhead, -⟩
        rcases h with hlong | ⟨hn, hne⟩
        · exact absurd hle (Nat.not_le.2 hlong)
        · exact hne (hhead hn)
      · simp only [not_or, not_and, not_not, Nat.not_lt] at h
        refine (recognises_pure _).congr fun o v => and_congr_right fun _ => ?_
        rw [and_iff_right h.1, and_iff_right h.2]
    refine ((recognises_octets n).bind hcheck).congr fun content v => ?_
    constructor
    · rintro ⟨_, o, _, ⟨hn, rfl⟩, ⟨rfl, hle, hhead, hv⟩, rfl⟩
      subst hn hv
      rw [List.append_nil]
      refine ⟨rfl, ⟨?_, hle, rfl⟩, (head?_eq_zero_iff hle).1 hhead⟩
      rintro rfl
      exact hzero rfl
    · rintro ⟨rfl, hv, hlt⟩
      rw [← hv.value_eq] at hlt
      exact ⟨content, content, [], ⟨rfl, rfl⟩,
        ⟨rfl, hv.length_le, (head?_eq_zero_iff hv.length_le).2 hlt, hv.value_eq⟩,
        (List.append_nil content).symm⟩

theorem recognises_unsigned32Content (n : Nat) : Recognises (unsigned32Content n)
    fun content v => content.length = n ∧ UnsignedForm 5 content v.toNat := by
  unfold unsigned32Content
  have hcheck : ∀ m : Nat, Recognises
      (if m < 1 <<< 32 then return UInt32.ofNat m else fail .integerOverflow)
      fun o (v : UInt32) => o = [] ∧ m = v.toNat := by
    intro m
    split_ifs with h
    · refine (recognises_pure _).congr fun o v => and_congr_right fun _ => ?_
      constructor
      · rintro rfl
        exact (UInt32.toNat_ofNat_of_lt' h).symm
      · rintro rfl
        exact UInt32.ofNat_toNat
    · refine (recognises_fail _).congr fun o v => iff_of_false id ?_
      rintro ⟨-, rfl⟩
      exact h v.toNat_lt
  refine ((recognises_unsignedContent n 4).bind hcheck).congr fun content v => ?_
  constructor
  · rintro ⟨m, o, _, ⟨hn, hm, -⟩, ⟨rfl, rfl⟩, rfl⟩
    rw [List.append_nil]
    exact ⟨hn, hm⟩
  · rintro ⟨hn, hv⟩
    exact ⟨v.toNat, content, [], ⟨hn, hv, v.toNat_lt⟩, ⟨rfl, rfl⟩, (List.append_nil _).symm⟩

theorem recognises_unsigned64Content (n : Nat) : Recognises (unsigned64Content n)
    fun content v => content.length = n ∧ UnsignedForm 9 content v.toNat := by
  unfold unsigned64Content
  refine ((recognises_unsignedContent n 8).map UInt64.ofNat).congr fun content v => ?_
  constructor
  · rintro ⟨m, ⟨hn, hm, hlt⟩, rfl⟩
    rw [UInt64.toNat_ofNat_of_lt' hlt]
    exact ⟨hn, hm⟩
  · rintro ⟨hn, hv⟩
    exact ⟨v.toNat, ⟨hn, hv, v.toNat_lt⟩, UInt64.ofNat_toNat⟩

end Reader

end SnmpAgent
