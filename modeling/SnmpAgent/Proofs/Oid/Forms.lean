import SnmpAgent.Proofs.Oid.Wire
import Mathlib.Data.List.Forall2

/-!
# The forms of identifiers

An identifier may be encoded in several ways, since a number in base 128 may
have leading zeros. Exactly these *forms* are read: groups that denote numbers
of 32 bits, the first of which stands for a pair in an arc.

* `SubidForm`, `Form`: the forms of sub-identifiers and of identifiers;
* `decodeSubid_eq_ok_iff`, `decodeSubids_eq_ok_iff`, `ofContent_eq_ok_iff`:
  what is read is what has the octets as a form.
-/

namespace SnmpAgent.Oid

/-! ## Sub-identifiers -/

/-- The octets that stand for one number: every group but the last has its top
    bit set. -/
inductive Groups : List UInt8 → Prop where
  | last {b : UInt8} (h : b < 0x80) : Groups [b]
  | more {b : UInt8} {o : List UInt8} (h : ¬b < 0x80) (ho : Groups o) : Groups (b :: o)

/-- The number that groups denote whose low seven bits are read on behind
    `acc`. -/
def groupsValue (acc : Nat) (groups : List UInt8) : Nat :=
  groups.foldl (fun n b => n * 128 + b.toNat % 128) acc

/-- The forms of a sub-identifier. -/
structure SubidForm (o : List UInt8) (subid : UInt32) : Prop where
  groups : Groups o
  value_eq : groupsValue 0 o = subid.toNat

theorem Groups.ne_nil {o : List UInt8} (h : Groups o) : o ≠ [] := by
  cases h <;> exact List.cons_ne_nil _ _

theorem groupsValue_cons (acc : Nat) (b : UInt8) (o : List UInt8) :
    groupsValue acc (b :: o) = groupsValue (acc * 128 + b.toNat % 128) o := rfl

/-- A number only grows when groups are read on. -/
theorem le_groupsValue (acc : Nat) (o : List UInt8) : acc ≤ groupsValue acc o := by
  induction o generalizing acc with
  | nil => exact Nat.le_refl acc
  | cons b o ih =>
    have hstep := ih (acc * 128 + b.toNat % 128)
    rw [groupsValue_cons]
    omega

/-- Reading on, a number of 32 bits is read from its groups and from nothing
    else. -/
theorem decodeSubidFrom_eq_ok_iff {base acc used k : Nat} {data : List UInt8} {subid : UInt32} :
    decodeSubidFrom base acc used data = .ok (subid, k) ↔ ∃ o rest, Groups o ∧
      groupsValue acc o = subid.toNat ∧ data = o ++ rest ∧ k = used + o.length := by
  -- The accumulator and the count stand for the groups read so far.
  induction data generalizing acc used with
  | nil =>
    refine iff_of_false (fun h => by cases h) ?_
    rintro ⟨o, rest, ho, -, he, -⟩
    exact ho.ne_nil (List.append_eq_nil_iff.1 he.symm).1
  | cons b data ih =>
    rw [decodeSubidFrom]
    have hsubid : subid.toNat < 2 ^ 32 := subid.toNat_lt
    split_ifs with hlarge hlast
    · -- The number is too large with any group behind it.
      refine iff_of_false (fun h => by cases h) ?_
      rintro ⟨o, rest, ho, hvalue, he, -⟩
      obtain ⟨c, o, rfl⟩ := List.exists_cons_of_ne_nil ho.ne_nil
      have hle := le_groupsValue (acc * 128 + c.toNat % 128) o
      rw [groupsValue_cons] at hvalue
      omega
    · have hvalue : (UInt32.ofNat (acc * 128 + b.toNat % 128)).toNat = acc * 128 + b.toNat % 128 :=
        UInt32.toNat_ofNat_of_lt' (by simp only [UInt32.size]; omega)
      constructor
      · intro h
        cases h
        exact ⟨[b], data, .last hlast, hvalue.symm, rfl, rfl⟩
      · rintro ⟨_, rest, ⟨hb⟩ | ⟨hb, ho⟩, hsum, he, rfl⟩
        · obtain ⟨rfl, rfl⟩ := List.cons.inj he
          rw [← UInt32.toNat_inj.1 (hvalue.trans hsum)]
          rfl
        · obtain ⟨rfl, -⟩ := List.cons.inj he
          exact absurd hlast hb
    · rw [ih]
      constructor
      · rintro ⟨o, rest, ho, hsum, rfl, rfl⟩
        exact ⟨b :: o, rest, .more hlast ho, hsum, rfl, by rw [List.length_cons]; omega⟩
      · rintro ⟨_, rest, ⟨hb⟩ | ⟨hb, ho⟩, hsum, he, rfl⟩
        · obtain ⟨rfl, -⟩ := List.cons.inj he
          exact absurd hb hlast
        · obtain ⟨rfl, rfl⟩ := List.cons.inj he
          exact ⟨_, rest, ho, hsum, rfl, by rw [List.length_cons]; omega⟩

/-- Sub-identifiers are read from their forms and from nothing else. -/
theorem decodeSubid_eq_ok_iff {base k : Nat} {data : List UInt8} {subid : UInt32} :
    decodeSubid base data = .ok (subid, k) ↔
      ∃ o rest, SubidForm o subid ∧ data = o ++ rest ∧ k = o.length := by
  rw [decodeSubid, decodeSubidFrom_eq_ok_iff]
  simp only [Nat.zero_add]
  constructor
  · rintro ⟨o, rest, ho, hvalue, he⟩
    exact ⟨o, rest, ⟨ho, hvalue⟩, he⟩
  · rintro ⟨o, rest, ho, he⟩
    exact ⟨o, rest, ho.groups, ho.value_eq, he⟩

/-- Only no sub-identifiers have no octets. -/
theorem flatten_eq_nil_iff {os : List (List UInt8)} {subids : List UInt32}
    (h : List.Forall₂ SubidForm os subids) : os.flatten = [] ↔ subids = [] := by
  cases h with
  | nil => exact ⟨fun _ => rfl, fun _ => rfl⟩
  | cons ho _ =>
    refine iff_of_false (fun hnil => ?_) (List.cons_ne_nil _ _)
    exact ho.groups.ne_nil (List.append_eq_nil_iff.1 hnil).1

/-- As many sub-identifiers are read as there is room for, each from one of its
    forms. -/
theorem decodeSubids_eq_ok_iff {base room : Nat} {data : List UInt8} {subids : List UInt32} :
    decodeSubids base room data = .ok subids ↔ subids.length ≤ room ∧
      ∃ os : List (List UInt8), List.Forall₂ SubidForm os subids ∧ data = os.flatten := by
  have hend : ∀ (room : Nat) (subids : List UInt32),
      (.ok [] : Except DecodeError (List UInt32)) = .ok subids ↔ subids.length ≤ room ∧
        ∃ os : List (List UInt8), List.Forall₂ SubidForm os subids ∧ [] = os.flatten := by
    intro room subids
    constructor
    · intro h
      cases h
      exact ⟨Nat.zero_le room, [], .nil, rfl⟩
    · rintro ⟨-, os, hos, he⟩
      rw [(flatten_eq_nil_iff hos).1 he.symm]
  -- The octets that one sub-identifier takes are known only when it is read, so
  -- the induction is on the room, which it takes one of.
  induction room generalizing base data subids with
  | zero =>
    rw [decodeSubids]
    split_ifs with hempty
    · rw [List.isEmpty_iff.1 hempty]
      exact hend 0 subids
    · refine iff_of_false (fun h => ?_) ?_
      · obtain ⟨read, -, hnone⟩ := except_bind_eq_ok.1 h
        cases hnone
      · rintro ⟨hlength, os, hos, rfl⟩
        have hnil := List.length_eq_zero_iff.1 (Nat.le_zero.1 hlength)
        exact hempty (List.isEmpty_iff.2 ((flatten_eq_nil_iff hos).2 hnil))
  | succ room ih =>
    rw [decodeSubids]
    split_ifs with hempty
    · rw [List.isEmpty_iff.1 hempty]
      exact hend (room + 1) subids
    · constructor
      · intro h
        obtain ⟨⟨subid, used⟩, hfirst, hmore⟩ := except_bind_eq_ok.1 h
        obtain ⟨rest, hrest, hsubids⟩ := except_bind_eq_ok.1 hmore
        cases hsubids
        obtain ⟨o, data, ho, rfl, rfl⟩ := decodeSubid_eq_ok_iff.1 hfirst
        rw [List.drop_left] at hrest
        obtain ⟨hlength, os, hos, rfl⟩ := ih.1 hrest
        exact ⟨Nat.succ_le_succ hlength, o :: os, .cons ho hos, rfl⟩
      · rintro ⟨hlength, os, hos, rfl⟩
        cases hos with
        | nil => exact absurd rfl hempty
        | @cons o subid os rest ho hos =>
          have hfirst : decodeSubid base (o ++ os.flatten) = .ok (subid, o.length) :=
            decodeSubid_eq_ok_iff.2 ⟨o, os.flatten, ho, rfl, rfl⟩
          have hrest : decodeSubids (base + o.length) room os.flatten = .ok rest :=
            ih.2 ⟨Nat.le_of_succ_le_succ hlength, os, hos, rfl⟩
          rw [List.flatten_cons, hfirst]
          simp only [bind, Except.bind, List.drop_left, hrest]
          rfl

/-! ## Identifiers -/

/-- The forms of an identifier: groups for the pair in an arc, and forms of the
    other sub-identifiers. -/
inductive Form : List UInt8 → Oid → Prop where
  | mk {pair : List UInt8} {os : List (List UInt8)} {first second : UInt32} {rest : List UInt32}
      (hpair : Groups pair) (hvalue : groupsValue 0 pair = first.toNat * 40 + second.toNat)
      (harc : InArc first second) (hrest : List.Forall₂ SubidForm os rest)
      (hlength : rest.length + 2 ≤ maxSubids) : Form (pair ++ os.flatten) ⟨first :: second :: rest⟩

theorem Form.ne_nil {content : List UInt8} {oid : Oid} (h : Form content oid) : content ≠ [] := by
  obtain ⟨hpair, -⟩ := h
  exact List.append_ne_nil_of_left_ne_nil hpair.ne_nil _

/-- Identifiers are read from their forms and from nothing else. -/
theorem ofContent_eq_ok_iff {data : List UInt8} {base : Nat} {oid : Oid} :
    ofContent data base = .ok oid ↔ Form data oid := by
  rw [ofContent]
  constructor
  · intro h
    split_ifs at h with hempty
    obtain ⟨⟨n, used⟩, hfirst, hmore⟩ := except_bind_eq_ok.1 h
    dsimp only at hmore
    split_ifs at hmore with hsmall
    obtain ⟨rest, hrest, hoid⟩ := except_bind_eq_ok.1 hmore
    cases hoid
    obtain ⟨pair, data, hpair, rfl, rfl⟩ := decodeSubid_eq_ok_iff.1 hfirst
    rw [List.drop_left] at hrest
    obtain ⟨hlength, os, hos, rfl⟩ := decodeSubids_eq_ok_iff.1 hrest
    obtain ⟨first, second, hunpack, harc, hsum⟩ := unpackFirst_eq (Nat.le_of_not_lt hsmall)
    have hroom : rest.length + 2 ≤ maxSubids := by
      rw [maxSubids] at hlength ⊢
      omega
    rw [hunpack]
    exact Form.mk hpair.groups (hpair.value_eq.trans hsum.symm) harc hos hroom
  · rintro ⟨hpair, hvalue, harc, hrest, hlength⟩
    rename_i pair os first second rest
    -- The pair in an arc is what its packed number, an octet, is unpacked to.
    have hoctet : first.toNat * 40 + second.toNat ≤ maxFirstOctet := by
      rw [InArc] at harc
      rw [maxFirstOctet]
      omega
    have hn : (UInt32.ofNat (first.toNat * 40 + second.toNat)).toNat =
        first.toNat * 40 + second.toNat := UInt32.toNat_ofNat_of_lt'
      (Nat.lt_of_le_of_lt hoctet (by decide))
    have hfirst : decodeSubid base (pair ++ os.flatten) =
        .ok (UInt32.ofNat (first.toNat * 40 + second.toNat), pair.length) :=
      decodeSubid_eq_ok_iff.2 ⟨pair, os.flatten, ⟨hpair, hvalue.trans hn.symm⟩, rfl, rfl⟩
    have hmore : decodeSubids (base + pair.length) (maxSubids - 2) os.flatten = .ok rest :=
      decodeSubids_eq_ok_iff.2 ⟨Nat.le_sub_of_add_le hlength, os, hrest, rfl⟩
    have hempty : ¬(pair ++ os.flatten).isEmpty := by simp [hpair.ne_nil]
    rw [if_neg hempty, hfirst]
    simp only [bind, Except.bind, hn, if_neg (Nat.not_lt.2 hoctet), List.drop_left, hmore,
      unpackFirst_of_inArc harc hn]
    rfl

end SnmpAgent.Oid
