import SnmpAgent.Proofs.Ber.Forms
import Mathlib.Data.Nat.Digits.Defs

/-!
# The shortest contents

A number has many contents: in front of each there may be further octets that
repeat its sign. As many octets denote a number in one way only, so among the
contents of a number there is a single shortest one. It is the one without a
repeated sign, and the one that is written.

* `signedValue_inj`: contents of one length denote different numbers;
* `shortest_twosComplement`: the shortest content in closed form;
* `shortest_of_bare`: a content without a repeated sign is the shortest;
* `shortest_signedOctets`, `shortest_unsignedOctets`: so are the contents that
  are written;
* `written_shortest`: the numbers of all types are read back from them.
-/

namespace SnmpAgent

namespace Integer

/-! ## Contents of one length -/

/-- Read without sign, the octets are the digits of a number in base 256. -/
theorem unsignedValue_eq_ofDigits (content : List UInt8) :
    unsignedValue content = Nat.ofDigits 256 (content.reverse.map UInt8.toNat) := by
  induction content using List.reverseRecOn with
  | nil => rfl
  | append_singleton content b ih =>
    rw [unsignedValue_append, ih, List.reverse_append, List.reverse_singleton,
      List.singleton_append, List.map_cons, Nat.ofDigits_cons, Nat.add_comm, Nat.mul_comm]

/-- Contents of one length denote different numbers without sign. -/
theorem unsignedValue_inj {a b : List UInt8} (hlength : a.length = b.length)
    (h : unsignedValue a = unsignedValue b) : a = b := by
  rw [unsignedValue_eq_ofDigits, unsignedValue_eq_ofDigits] at h
  have hdigit : ∀ content : List UInt8, ∀ n ∈ content.reverse.map UInt8.toNat, n < 256 := by
    intro content n hn
    obtain ⟨b, -, rfl⟩ := List.mem_map.1 hn
    exact b.toNat_lt
  have hdigits := Nat.ofDigits_inj_of_len_eq (by decide) (by simp [hlength]) (hdigit a)
    (hdigit b) h
  exact List.reverse_inj.1 ((List.map_inj_right fun _ _ => UInt8.toNat_inj.1).1 hdigits)

/-- They denote different numbers with sign, too: the sign takes away nothing,
    or more than the octets denote without it. -/
theorem signedValue_inj {a b : List UInt8} (hlength : a.length = b.length)
    (h : signedValue a = signedValue b) : a = b := by
  refine unsignedValue_inj hlength ?_
  cases a with
  | nil => rw [List.length_eq_zero_iff.1 hlength.symm]
  | cons x xs =>
    cases b with
    | nil => cases hlength
    | cons y ys =>
      have hx := unsignedValue_lt (x :: xs)
      have hy := unsignedValue_lt (y :: ys)
      have hcast : ((256 ^ (ys.length + 1) : Nat) : Int) = 256 ^ (ys.length + 1) := by norm_cast
      rw [signedValue_cons, signedValue_cons, Nat.succ.inj hlength, ← hcast] at h
      rw [hlength] at hx
      rw [List.length_cons] at hx hy
      generalize 256 ^ (ys.length + 1) = p at h hx hy
      split_ifs at h <;> omega

/-! ## The shortest content -/

/-- The content that is written for a number is no longer than any that denotes
    it. -/
theorem length_twosComplement_signedValue_le {content : List UInt8} (h : content ≠ []) :
    (twosComplement (signedValue content)).length ≤ content.length := by
  cases content with
  | nil => exact absurd rfl h
  | cons first rest =>
    obtain ⟨hlow, hhigh⟩ := signedValue_bounds first rest
    exact length_twosComplement_le rest.length hlow hhigh

/-- A content denotes a number, and all other contents that denote it are
    longer. -/
structure Shortest (w : List UInt8) (v : Int) : Prop where
  ne_nil : w ≠ []
  value_eq : signedValue w = v
  /-- Other octets that denote it are more. -/
  least : ∀ content, content ≠ [] → signedValue content = v → content ≠ w →
    w.length < content.length

/-- The content that is written for a number is the shortest. -/
theorem shortest_twosComplement (v : Int) : Shortest (twosComplement v) v where
  ne_nil := twosComplement_ne_nil v
  value_eq := signedValue_twosComplement v
  least := by
    rintro content hcontent rfl hne
    refine Nat.lt_of_le_of_ne (length_twosComplement_signedValue_le hcontent) fun hlength => hne ?_
    exact signedValue_inj hlength.symm (signedValue_twosComplement _).symm

/-- The shortest content is found by its length. -/
theorem Shortest.eq_of_length_eq {w content : List UInt8} {v : Int} (h : Shortest w v)
    (hcontent : content ≠ []) (hvalue : signedValue content = v)
    (hlength : content.length = w.length) : content = w := by
  by_contra hne
  exact absurd (h.least content hcontent hvalue hne) (by omega)

theorem Shortest.length_le {w content : List UInt8} {v : Int} (h : Shortest w v)
    (hcontent : content ≠ []) (hvalue : signedValue content = v) : w.length ≤ content.length := by
  by_cases hne : content = w
  · rw [hne]
  · exact Nat.le_of_lt (h.least content hcontent hvalue hne)

theorem Shortest.unique {w w' : List UInt8} {v : Int} (h : Shortest w v) (h' : Shortest w' v) :
    w = w' := by
  by_contra hne
  exact absurd (h.least w' h'.ne_nil h'.value_eq (Ne.symm hne))
    (Nat.lt_asymm (h'.least w h.ne_nil h.value_eq hne))

/-! ## Contents without repeated signs -/

/-- The first octet does more than to repeat the sign that the second one
    shows. -/
def Bare (content : List UInt8) : Prop :=
  ∀ first second rest, content = first :: second :: rest →
    ¬(first = 0 ∧ second < 0x80) ∧ ¬(first = 0xFF ∧ 0x80 ≤ second)

section

variable {first second : UInt8} {rest : List UInt8}

/-- A number that begins with less than two zero digits and a top bit is large. -/
theorem le_unsignedValue_of_bare (h : ¬(first = 0 ∧ second < 0x80)) :
    128 * 256 ^ rest.length ≤ unsignedValue (first :: second :: rest) := by
  rw [unsignedValue_cons, unsignedValue_cons, List.length_cons, Nat.pow_succ]
  generalize 256 ^ rest.length = p
  by_cases hfirst : first = 0
  · have hlow : 128 ≤ second.toNat := Nat.le_of_not_lt fun hlt => h ⟨hfirst, hlt⟩
    have hmul := Nat.mul_le_mul_right p hlow
    omega
  · have hpos : 1 ≤ first.toNat :=
      Nat.one_le_iff_ne_zero.2 fun hzero => hfirst (UInt8.toNat_inj.1 hzero)
    have hmul := Nat.mul_le_mul_right (p * 256) hpos
    omega

/-- A number that does not begin with all ones and a top bit is far from the
    next power. -/
theorem unsignedValue_lt_of_bare (h : ¬(first = 0xFF ∧ 0x80 ≤ second)) :
    unsignedValue (first :: second :: rest) + 128 * 256 ^ rest.length <
      256 ^ rest.length * 256 * 256 := by
  have hrest := unsignedValue_lt rest
  rw [unsignedValue_cons, unsignedValue_cons, List.length_cons, Nat.pow_succ]
  generalize 256 ^ rest.length = p at hrest ⊢
  by_cases hfirst : first.toNat = 255
  · have hhigh : second.toNat ≤ 127 := Nat.le_of_lt_succ
      (Nat.lt_of_not_le fun hle => h ⟨UInt8.toNat_inj.1 hfirst, hle⟩)
    have hmul := Nat.mul_le_mul_right p hhigh
    rw [hfirst]
    omega
  · have hle : first.toNat ≤ 254 := by
      have := first.toNat_lt
      omega
    have hmul := Nat.mul_le_mul_right (p * 256) hle
    have hmul' := Nat.mul_le_mul_right p (Nat.le_of_lt_succ second.toNat_lt)
    omega

/-- A content without a repeated sign denotes a number that does not fit in one
    octet less. -/
theorem Bare.exceeds (h : Bare (first :: second :: rest)) :
    signedValue (first :: second :: rest) < -(128 * 256 ^ rest.length) ∨
      128 * 256 ^ rest.length ≤ signedValue (first :: second :: rest) := by
  obtain ⟨hzero, hones⟩ := h first second rest rfl
  rw [signedValue_cons, List.length_cons, Int.pow_succ, Int.pow_succ]
  split_ifs
  · right
    exact_mod_cast le_unsignedValue_of_bare hzero
  · left
    have hlt : (unsignedValue (first :: second :: rest) : Int) + 128 * 256 ^ rest.length <
        256 ^ rest.length * 256 * 256 := by exact_mod_cast unsignedValue_lt_of_bare hones
    omega

/-- The first octet of a content tells the sign. -/
theorem signedValue_neg_iff : signedValue (first :: rest) < 0 ↔ 0x80 ≤ first := by
  have hlt : (unsignedValue (first :: rest) : Int) < 256 ^ (rest.length + 1) := by
    exact_mod_cast unsignedValue_lt (first :: rest)
  rw [signedValue_cons, ← UInt8.not_lt]
  split_ifs with h
  · exact iff_of_false (Int.not_lt.2 (Int.natCast_nonneg _)) (not_not_intro h)
  · exact iff_of_true (by omega) h

/-- An octet in front that repeats the sign changes nothing. -/
theorem signedValue_cons_sign {negative : Bool} (h : 0x80 ≤ second ↔ negative) :
    signedValue (signOctet negative :: second :: rest) = signedValue (second :: rest) := by
  rw [signedValue_cons, signedValue_cons second, unsignedValue_cons, List.length_cons]
  cases negative with
  | false =>
    have hsecond : second < 0x80 := UInt8.not_le.1 fun hle => by simpa using h.1 hle
    simp [signOctet, hsecond]
  | true =>
    have hsecond : ¬second < 0x80 := UInt8.not_lt.2 (h.2 rfl)
    simp [signOctet, hsecond, Int.pow_succ]
    omega

end

/-- Fewer octets than those of a content without a repeated sign denote other
    numbers. -/
theorem shortest_of_bare {content : List UInt8} (hne : content ≠ []) (h : Bare content) :
    Shortest content (signedValue content) where
  ne_nil := hne
  value_eq := rfl
  least := by
    intro other hother hvalue hdiffers
    by_contra hle
    rcases Nat.eq_or_lt_of_le (Nat.le_of_not_lt hle) with heq | hlt
    · exact hdiffers (signedValue_inj heq hvalue)
    · obtain ⟨x, xs, rfl⟩ := List.exists_cons_of_ne_nil hother
      rcases content with _ | ⟨first, _ | ⟨second, rest⟩⟩
      · exact hne rfl
      · simp at hlt
      · simp only [List.length_cons, Nat.add_lt_add_iff_right] at hlt
        have hpow : (256 : Int) ^ xs.length ≤ 256 ^ rest.length := by
          exact_mod_cast Nat.pow_le_pow_right (by decide : 0 < 256) (Nat.le_of_lt_succ hlt)
        have hbounds := signedValue_bounds x xs
        have hexceeds := h.exceeds
        omega

/-- Without the octets that repeat the sign, a content denotes the same number. -/
theorem dropSigns_spec {negative : Bool} {content : List UInt8} (hne : content ≠ [])
    (hsign : signedValue content < 0 ↔ negative) : dropSigns negative content ≠ [] ∧
      signedValue (dropSigns negative content) = signedValue content ∧
      Bare (dropSigns negative content) := by
  induction content with
  | nil => exact absurd rfl hne
  | cons first content ih =>
    cases content with
    | nil => exact ⟨hne, rfl, fun _ _ _ h => by cases h⟩
    | cons second rest =>
      rw [dropSigns]
      split_ifs with h
      · obtain ⟨rfl, hsecond⟩ := h
        rw [signedValue_cons_sign hsecond] at hsign ⊢
        exact ih (List.cons_ne_nil _ _) hsign
      · refine ⟨hne, rfl, ?_⟩
        rintro _ _ _ ⟨rfl, rfl, rfl⟩
        rw [signedValue_neg_iff] at hsign
        -- The first octet is not the other sign: that is not the sign of the number.
        constructor
        · rintro ⟨rfl, hsecond⟩
          cases negative with
          | false => exact h ⟨rfl, iff_of_false (UInt8.not_le.2 hsecond) Bool.false_ne_true⟩
          | true => exact absurd (hsign.2 rfl) (by decide)
        · rintro ⟨rfl, hsecond⟩
          cases negative with
          | false => exact absurd (hsign.1 (by decide)) Bool.false_ne_true
          | true => exact h ⟨rfl, iff_of_true hsecond rfl⟩

/-- Without leading zeros, octets are the digits of the same number. -/
theorem dropZeros_spec {content : List UInt8} (hne : content ≠ []) : dropZeros content ≠ [] ∧
      unsignedValue (dropZeros content) = unsignedValue content ∧
      ∀ second rest, dropZeros content ≠ 0 :: second :: rest := by
  induction content with
  | nil => exact absurd rfl hne
  | cons first content ih =>
    cases content with
    | nil => exact ⟨hne, rfl, fun _ _ h => by cases h⟩
    | cons second rest =>
      rw [dropZeros]
      split_ifs with h
      · subst h
        rw [unsignedValue_cons 0]
        simpa using ih (List.cons_ne_nil _ _)
      · exact ⟨hne, rfl, fun _ _ heq => h (List.cons.inj heq).1⟩

/-! ## Written contents -/

/-- A number of `8 * (k + 1)` bits is denoted by its last `k + 1` octets. -/
theorem signedValue_bigEndian (k : Nat) {v : Int} (hl : -(128 * 256 ^ k) ≤ v)
    (hu : v < 128 * 256 ^ k) :
    bigEndian (k + 1) v ≠ [] ∧ signedValue (bigEndian (k + 1) v) = v := by
  induction k generalizing v with
  | zero => exact ⟨List.cons_ne_nil _ _, signedValue_singleton (by omega)⟩
  | succ k ih =>
    rw [Int.pow_succ] at hl hu
    obtain ⟨hne, hvalue⟩ := ih (v := v / 256) (by omega) (by omega)
    rw [bigEndian, signedValue_append hne, hvalue, toNat_ofInt]
    exact ⟨by simp, by omega⟩

/-- A number of `8 * size` bits without sign has its last `size` octets as
    digits. -/
theorem unsignedValue_bigEndian {size n : Nat} (h : n < 256 ^ size) :
    unsignedValue (bigEndian size n) = n := by
  induction size generalizing n with
  | zero => exact (Nat.lt_one_iff.1 h).symm
  | succ size ih =>
    rw [Nat.pow_succ] at h
    have hdigit := toNat_ofInt n
    have hquotient : ((n : Int) / 256) = ((n / 256 : Nat) : Int) := by norm_cast
    rw [bigEndian, unsignedValue_append, hquotient, ih (by omega)]
    omega

/-- What is written for a signed number is the shortest content. -/
theorem shortest_signedOctets (v : Int32) : Shortest (signedOctets v) v.toInt := by
  obtain ⟨hne, hvalue⟩ := signedValue_bigEndian 3 v.le_toInt v.toInt_lt
  have hsign : signedValue (bigEndian 4 v.toInt) < 0 ↔ decide (v.toInt < 0) = true := by
    rw [hvalue, decide_eq_true_iff]
  obtain ⟨hne', hvalue', hbare⟩ := dropSigns_spec hne hsign
  have hshortest := shortest_of_bare hne' hbare
  rwa [hvalue', hvalue] at hshortest

/-- What is written for an unsigned number is the shortest content, with a zero
    in front or not. -/
theorem shortest_unsignedOctets {size n : Nat} (hsize : size ≠ 0) (h : n < 256 ^ size) :
    Shortest (unsignedOctets size n) n := by
  have hne : bigEndian size n ≠ [] := by
    cases size with
    | zero => exact absurd rfl hsize
    | succ size => simp [bigEndian]
  obtain ⟨hne', hvalue, hzero⟩ := dropZeros_spec hne
  rw [unsignedValue_bigEndian h] at hvalue
  rw [unsignedOctets]
  cases hcontent : dropZeros (bigEndian size n) with
  | nil => exact absurd hcontent hne'
  | cons first rest =>
    rw [hcontent] at hvalue hzero
    dsimp only
    split_ifs with hfirst
    · -- Without a top bit, the zeros were all that could be left out.
      have hbare : Bare (first :: rest) := by
        rintro _ second rest ⟨rfl, rfl⟩
        refine ⟨?_, ?_⟩
        · rintro ⟨rfl, -⟩
          exact hzero second rest rfl
        · rintro ⟨rfl, -⟩
          exact absurd hfirst (by decide)
      have hshortest := shortest_of_bare (List.cons_ne_nil _ _) hbare
      rwa [signedValue_cons, if_pos hfirst, hvalue] at hshortest
    · -- The top bit would be a sign, so a zero is needed after all.
      have hbare : Bare (0 :: first :: rest) := by
        rintro _ _ _ ⟨rfl, rfl, rfl⟩
        exact ⟨fun h => hfirst h.2, fun h => absurd h.1 (by decide)⟩
      have hshortest := shortest_of_bare (List.cons_ne_nil _ _) hbare
      rwa [signedValue_cons, if_pos (by decide), unsignedValue_cons, hvalue, UInt8.toNat_zero,
        Nat.zero_mul, Nat.zero_add] at hshortest

theorem signedOctets_eq (v : Int32) : signedOctets v = twosComplement v.toInt :=
  (shortest_signedOctets v).unique (shortest_twosComplement _)

theorem unsignedOctets_eq {size n : Nat} (hsize : size ≠ 0) (h : n < 256 ^ size) :
    unsignedOctets size n = twosComplement n :=
  (shortest_unsignedOctets hsize h).unique (shortest_twosComplement _)

end Integer

namespace Writer

open Integer

/-- An INTEGER is written with the shortest content. -/
theorem integer_eq (v : Int32) : integer v = element Tag.integer (twosComplement v.toInt) := by
  rw [integer, signedOctets_eq]

/-- So is an unsigned number of 32 bits. -/
theorem unsigned32_eq (t : Tag) (v : UInt32) :
    unsigned32 t v = element t (twosComplement v.toNat) := by
  rw [unsigned32, unsignedOctets_eq (by decide) v.toNat_lt]

theorem unsigned64_eq (v : UInt64) :
    unsigned64 v = element Tag.counter64 (twosComplement v.toNat) := by
  rw [unsigned64, unsignedOctets_eq (by decide) v.toNat_lt]

end Writer

namespace Integer

/-- An element with a content of at most nine octets is written with a length of
    one octet. -/
theorem run_element {content : List UInt8} (t : Tag) (h : content.length ≤ 9) :
    (Writer.element t content).run none = .ok (t :: UInt8.ofNat content.length :: content) := by
  rw [(Writer.writes_element t content).run_none_eq_ok_iff, Element.octets?_eq_some]
  exact ⟨[UInt8.ofNat content.length], if_pos (by omega), rfl⟩

/-- The content of an INTEGER is written in one to four octets, from which it is
    read. Any octets from which it is read are no fewer, and they are the same
    where they are as many. The content of an unsigned number of 32 or 64 bits
    is the shortest that denotes this number with a sign. It has at most 5 and 9
    octets, and the number is read from it. -/
theorem written_shortest :
    (∀ v : Int32, ∃ w, (Writer.integer v).run none =
        .ok (Tag.integer :: UInt8.ofNat w.length :: w) ∧
      1 ≤ w.length ∧ w.length ≤ 4 ∧ Takes (Reader.integerContent w.length) w v ∧
      ∀ content offset rest c,
        Reader.integerContent content.length ⟨offset, content ++ rest⟩ = .ok v c →
        w.length ≤ content.length ∧ (content.length = w.length → content = w)) ∧
    (∀ v : UInt32, ∃ w, (∀ t, (Writer.unsigned32 t v).run none =
        .ok (t :: UInt8.ofNat w.length :: w)) ∧
      Shortest w v.toNat ∧ w.length ≤ 5 ∧ Takes (Reader.unsigned32Content w.length) w v) ∧
    (∀ v : UInt64, ∃ w, (Writer.unsigned64 v).run none =
        .ok (Tag.counter64 :: UInt8.ofNat w.length :: w) ∧
      Shortest w v.toNat ∧ w.length ≤ 9 ∧ Takes (Reader.unsigned64Content w.length) w v) := by
  refine ⟨fun v => ?_, fun v => ?_, fun v => ?_⟩
  · rw [Writer.integer_eq]
    have hshortest := shortest_twosComplement v.toInt
    have hlength := length_twosComplement_le 3 v.le_toInt v.toInt_lt
    refine ⟨twosComplement v.toInt, run_element _ (by omega),
      List.length_pos_iff.2 hshortest.ne_nil, hlength, Reader.takes_integerContent v, ?_⟩
    intro content offset rest c hread
    -- What is read is a form of the number, and that consists of the octets at hand.
    obtain ⟨o, rest', ⟨ho, hform⟩, he, -⟩ := (Reader.recognises_integerContent _ _ _ _ _).1 hread
    obtain ⟨rfl, -⟩ := List.append_inj he ho.symm
    exact ⟨hshortest.length_le hform.ne_nil hform.value_eq,
      hshortest.eq_of_length_eq hform.ne_nil hform.value_eq⟩
  · have hlength := length_twosComplement_natCast_le (k := 4) v.toNat_lt
    refine ⟨twosComplement v.toNat, fun t => ?_, shortest_twosComplement _, hlength,
      Reader.takes_unsigned32Content v⟩
    rw [Writer.unsigned32_eq]
    exact run_element t (by omega)
  · rw [Writer.unsigned64_eq]
    have hlength := length_twosComplement_natCast_le (k := 8) v.toNat_lt
    exact ⟨twosComplement v.toNat, run_element _ hlength, shortest_twosComplement _, hlength,
      Reader.takes_unsigned64Content v⟩

end Integer

end SnmpAgent
