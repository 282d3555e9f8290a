import SnmpAgent.Proofs.Oid.Forms
import Mathlib.Data.Nat.Digits.Defs
import Mathlib.Data.List.Induction

/-!
# Sub-identifiers in exact arithmetic

The groups of a sub-identifier are the digits of a number in base 128, of
which there may be arbitrarily many. The reader keeps no number above 32 bits:
it gives up before it would have to. This is no sooner and no later than the
groups denote too large a number, wherever they end.

* `exactValue`: the number that groups denote, however large;
* `group`, `EndsAt`: where the groups of a sub-identifier end;
* `decodeSubidFrom_cases`: whether groups end and whether they fit decides what
  is read;
* `decodeSubid_exact`: so the reader tells exact values, and the two troubles,
  apart.
-/

namespace SnmpAgent.Oid

/-! ## Values -/

/-- The number whose digits in base 128 are the low seven bits of the octets,
    the most significant first. -/
def exactValue (o : List UInt8) : Nat := Nat.ofDigits 128 (o.reverse.map fun b => b.toNat % 128)

/-- A further group is a further digit. -/
theorem groupsValue_concat (acc : Nat) (o : List UInt8) (b : UInt8) :
    groupsValue acc (o ++ [b]) = groupsValue acc o * 128 + b.toNat % 128 := List.foldl_concat ..

/-- The exact value is what is read on from nothing. -/
theorem groupsValue_zero (o : List UInt8) : groupsValue 0 o = exactValue o := by
  induction o using List.reverseRecOn with
  | nil => rfl
  | append_singleton o b ih =>
    rw [groupsValue_concat, ih, exactValue, exactValue, List.reverse_append,
      List.reverse_singleton, List.singleton_append, List.map_cons, Nat.ofDigits_cons,
      Nat.add_comm, Nat.mul_comm]

/-- No number above 32 bits is come to when octets are read on behind `acc`. -/
def Fits (acc : Nat) (o : List UInt8) : Prop := ∀ o', o' <+: o → groupsValue acc o' < 2 ^ 32

theorem Fits.lt {acc : Nat} {o : List UInt8} (h : Fits acc o) : acc < 2 ^ 32 :=
  h [] List.nil_prefix

theorem fits_nil {acc : Nat} : Fits acc [] ↔ acc < 2 ^ 32 := by
  refine ⟨Fits.lt, fun h o' ho' => ?_⟩
  rw [List.prefix_nil.1 ho']
  exact h

theorem fits_cons {acc : Nat} {b : UInt8} {o : List UInt8} :
    Fits acc (b :: o) ↔ acc < 2 ^ 32 ∧ Fits (acc * 128 + b.toNat % 128) o := by
  constructor
  · exact fun h => ⟨h.lt, fun o' ho' => h (b :: o') ((List.prefix_cons_inj b).2 ho')⟩
  · rintro ⟨hacc, h⟩ o' ho'
    rcases List.prefix_cons_iff.1 ho' with rfl | ⟨rest, rfl, hrest⟩
    · exact hacc
    · exact h rest hrest

/-! ## Groups -/

/-- The octets up to the first one whose top bit is clear, or all of them where
    there is none. -/
def group (data : List UInt8) : List UInt8 := data.take (data.findIdx (· < 0x80) + 1)

/-- The octet at the position `k - 1` is the first one whose top bit is clear. -/
def EndsAt (data : List UInt8) (k : Nat) : Prop :=
  ∃ i, data.findIdx? (· < 0x80) = some i ∧ k = i + 1

theorem group_cons (b : UInt8) (data : List UInt8) :
    group (b :: data) = b :: if b < 0x80 then [] else group data := by
  rw [group, List.findIdx_cons, List.take_succ_cons]
  split_ifs with hb <;> simp [hb, group]

/-- The groups of one number end where the first top bit is clear. -/
theorem endsAt_iff {data : List UInt8} {k : Nat} :
    EndsAt data k ↔ ∃ o rest, Groups o ∧ data = o ++ rest ∧ k = o.length := by
  induction data generalizing k with
  | nil =>
    refine iff_of_false (fun h => ?_) ?_
    · obtain ⟨i, hi, -⟩ := h
      cases hi
    · rintro ⟨o, rest, ho, he, -⟩
      exact ho.ne_nil (List.append_eq_nil_iff.1 he.symm).1
  | cons b data ih =>
    rw [EndsAt, List.findIdx?_cons]
    by_cases hb : b < 0x80
    · simp only [hb, decide_true, if_true, Option.some.injEq, exists_eq_left']
      constructor
      · rintro rfl
        exact ⟨[b], data, .last hb, rfl, rfl⟩
      · rintro ⟨_, rest, ⟨-⟩ | ⟨hmore, -⟩, he, rfl⟩
        · rfl
        · obtain ⟨rfl, -⟩ := List.cons.inj he
          exact absurd hb hmore
    · simp only [hb, decide_false, Bool.false_eq_true, if_false, Option.map_eq_some_iff]
      constructor
      · rintro ⟨_, ⟨i, hi, rfl⟩, rfl⟩
        obtain ⟨o, rest, ho, rfl, hlength⟩ := ih.1 ⟨i, hi, rfl⟩
        exact ⟨b :: o, rest, .more hb ho, rfl, by rw [List.length_cons, hlength]⟩
      · rintro ⟨_, rest, ⟨hlast⟩ | ⟨-, ho⟩, he, rfl⟩
        · obtain ⟨rfl, -⟩ := List.cons.inj he
          exact absurd hlast hb
        · obtain ⟨rfl, rfl⟩ := List.cons.inj he
          obtain ⟨i, hi, hlength⟩ := ih.2 ⟨_, rest, ho, rfl, rfl⟩
          exact ⟨_, ⟨i, hi, rfl⟩, by rw [List.length_cons, hlength]⟩

/-! ## Reading -/

/-- A number is read if its groups end and fit. If they do not fit, they are
    refused as too large, and if they fit but do not end, as cut off. -/
theorem decodeSubidFrom_cases {acc : Nat} (h : acc < 2 ^ 32) (base used : Nat)
    (data : List UInt8) :
    (Fits acc (group data) ∧ (∃ b ∈ data, b < 0x80) ∧
      ∃ read, decodeSubidFrom base acc used data = .ok read) ∨
    (Fits acc (group data) ∧ (∀ b ∈ data, ¬b < 0x80) ∧
      ∃ offset, decodeSubidFrom base acc used data = .error ⟨offset, .truncatedData⟩) ∨
    (¬Fits acc (group data) ∧
      ∃ offset, decodeSubidFrom base acc used data = .error ⟨offset, .integerOverflow⟩) := by
  induction data generalizing acc used with
  | nil => exact .inr (.inl ⟨fits_nil.2 h, List.forall_mem_nil _, _, rfl⟩)
  | cons b data ih =>
    rw [decodeSubidFrom, group_cons, fits_cons, and_iff_right h]
    dsimp only
    by_cases hlarge : 1 <<< 25 ≤ acc
    · -- With any group behind it the number has more than 32 bits.
      have hexceeds : ¬acc * 128 + b.toNat % 128 < 2 ^ 32 := by omega
      rw [if_pos hlarge]
      exact .inr (.inr ⟨fun hfits => hexceeds hfits.lt, _, rfl⟩)
    · have hvalue : acc * 128 + b.toNat % 128 < 2 ^ 32 := by omega
      rw [if_neg hlarge]
      by_cases hlast : b < 0x80
      · rw [if_pos hlast, if_pos hlast]
        exact .inl ⟨fits_nil.2 hvalue, ⟨b, List.mem_cons_self, hlast⟩, _, rfl⟩
      · rw [if_neg hlast, if_neg hlast]
        rcases ih hvalue (used + 1) with
          ⟨hfits, ⟨c, hc, hclear⟩, hread⟩ | ⟨hfits, hset, hcut⟩ | hover
        · exact .inl ⟨hfits, ⟨c, List.mem_cons_of_mem b hc, hclear⟩, hread⟩
        · exact .inr (.inl ⟨hfits, List.forall_mem_cons.2 ⟨hlast, hset⟩, hcut⟩)
        · exact .inr (.inr hover)

/-- A sub-identifier is read from `k` octets exactly if the last of them is the
    first with its top bit clear and their exact value has 32 bits, and then it
    is that value. It is refused as too large exactly if some octets from which
    the group begins have a larger value, and as cut off exactly if the octets
    end before a clear top bit and there are no such octets. -/
theorem decodeSubid_exact (base : Nat) (data : List UInt8) :
    (∀ k, (∃ subid, decodeSubid base data = .ok (subid, k)) ↔
      EndsAt data k ∧ exactValue (data.take k) ≤ 4294967295) ∧
    (∀ subid k, decodeSubid base data = .ok (subid, k) →
      subid.toNat = exactValue (data.take k)) ∧
    ((∃ offset, decodeSubid base data = .error ⟨offset, .integerOverflow⟩) ↔
      ∃ o, o <+: group data ∧ 4294967295 < exactValue o) ∧
    ((∃ offset, decodeSubid base data = .error ⟨offset, .truncatedData⟩) ↔
      (∀ b ∈ data, ¬b < 0x80) ∧ ∀ o, o <+: group data → exactValue o ≤ 4294967295) := by
  have hfits : Fits 0 (group data) ↔ ∀ o, o <+: group data → exactValue o ≤ 4294967295 := by
    simp only [Fits, groupsValue_zero]
    exact forall₂_congr fun o _ => Nat.lt_succ_iff
  have hover : (∃ o, o <+: group data ∧ 4294967295 < exactValue o) ↔ ¬Fits 0 (group data) := by
    rw [hfits]
    push Not
    rfl
  -- One of three things happens, and each has an outcome of its own.
  have hcases := decodeSubidFrom_cases (by decide : 0 < 2 ^ 32) base 0 data
  refine ⟨fun k => ?_, fun subid k h => ?_, ?_, ?_⟩
  · constructor
    · rintro ⟨subid, h⟩
      obtain ⟨o, rest, ho, rfl, rfl⟩ := decodeSubid_eq_ok_iff.1 h
      refine ⟨endsAt_iff.2 ⟨o, rest, ho.groups, rfl, rfl⟩, ?_⟩
      rw [List.take_left, ← groupsValue_zero, ho.value_eq]
      exact Nat.le_of_lt_succ subid.toNat_lt
    · rintro ⟨hends, hvalue⟩
      obtain ⟨o, rest, ho, rfl, rfl⟩ := endsAt_iff.1 hends
      rw [List.take_left, ← groupsValue_zero] at hvalue
      have hsubid := UInt32.toNat_ofNat_of_lt' (Nat.lt_succ_of_le hvalue)
      exact ⟨_, decodeSubid_eq_ok_iff.2 ⟨o, rest, ⟨ho, hsubid.symm⟩, rfl, rfl⟩⟩
  · obtain ⟨o, rest, ho, rfl, rfl⟩ := decodeSubid_eq_ok_iff.1 h
    rw [List.take_left, ← groupsValue_zero, ho.value_eq]
  · rw [hover, decodeSubid]
    rcases hcases with ⟨hf, -, read, hread⟩ | ⟨hf, -, offset, hcut⟩ | ⟨hf, hlarge⟩
    · simp [hread, hf]
    · simp [hcut, hf]
    · exact iff_of_true hlarge hf
  · rw [← hfits, decodeSubid]
    rcases hcases with ⟨-, ⟨b, hb, hclear⟩, read, hread⟩ | ⟨hf, hset, hcut⟩ | ⟨hf, offset, hlarge⟩
    · refine iff_of_false ?_ fun h => h.1 b hb hclear
      simp [hread]
    · exact iff_of_true hcut ⟨hset, hf⟩
    · simp [hlarge, hf]

end SnmpAgent.Oid
