import SnmpAgent.Proofs.Ber.Reading
import Mathlib.Tactic.Ring
import Mathlib.Data.List.Induction

/-!
# Numbers and their contents

The shortest content of a number denotes that number again, read as a signed
number, and read as an unsigned one if it is not negative. Its size is bounded
by the range of the number, so a number of 32 or 64 bits is read back from the
element with this content.

* `twosComplement`: the shortest content of a number;
* `signedValue_twosComplement`: the content of a number denotes it;
* `length_twosComplement_le`: a number of `8 * k` bits takes at most `k`
  octets;
* `takes_integer`, `takes_unsigned32Content`, `takes_unsigned64Content`: the
  readers undo the writers.
-/

namespace SnmpAgent

namespace Integer

/-- A further octet is a further digit of an unsigned number. -/
theorem unsignedValue_append (content : List UInt8) (b : UInt8) :
    unsignedValue (content ++ [b]) = unsignedValue content * 256 + b.toNat := by
  simp [unsignedValue, List.foldl_append]

theorem signedValue_cons (first : UInt8) (rest : List UInt8) :
    signedValue (first :: rest) =
      if first < 0x80 then (unsignedValue (first :: rest) : Int)
      else unsignedValue (first :: rest) - 256 ^ (rest.length + 1) :=
  rfl

/-- A further octet is a further digit of a signed number, too: the sign is in
    the first octet. -/
theorem signedValue_append {content : List UInt8} (h : content ≠ []) (b : UInt8) :
    signedValue (content ++ [b]) = signedValue content * 256 + b.toNat := by
  cases content with
  | nil => exact absurd rfl h
  | cons first rest =>
    have happ := unsignedValue_append (first :: rest) b
    rw [List.cons_append] at happ ⊢
    rw [signedValue_cons, signedValue_cons, happ, List.length_append, List.length_singleton]
    split_ifs
    · rfl
    · -- The weight of the sign grows by the same factor as that of each digit.
      push_cast
      ring

theorem toNat_ofInt (v : Int) : ((UInt8.ofInt v).toNat : Int) = v % 256 := by
  simp [UInt8.ofInt]
  omega

/-- One octet denotes a number of eight bits. -/
theorem signedValue_singleton {v : Int} (h : -128 ≤ v ∧ v < 128) :
    signedValue [UInt8.ofInt v] = v := by
  have hv := toNat_ofInt v
  have hone : unsignedValue [UInt8.ofInt v] = (UInt8.ofInt v).toNat := by simp [unsignedValue]
  have hsign : UInt8.ofInt v < 0x80 ↔ (UInt8.ofInt v).toNat < 128 := UInt8.lt_iff_toNat_lt
  rw [signedValue_cons, hone, List.length_nil, Int.pow_succ, Int.pow_zero]
  split_ifs with hs
  · rw [hsign] at hs
    omega
  · rw [hsign] at hs
    omega

/-- The shortest content that denotes `v`. -/
def twosComplement (v : Int) : List UInt8 :=
  if -128 ≤ v ∧ v < 128 then [UInt8.ofInt v]
  else twosComplement (v / 256) ++ [UInt8.ofInt v]
termination_by v.natAbs
decreasing_by omega

theorem twosComplement_ne_nil (v : Int) : twosComplement v ≠ [] := by
  unfold twosComplement
  split_ifs <;> simp

/-- The content of a number denotes that number. -/
theorem signedValue_twosComplement (v : Int) : signedValue (twosComplement v) = v := by
  induction v using twosComplement.induct with
  | case1 v h => rw [twosComplement, if_pos h, signedValue_singleton h]
  | case2 v h ih =>
    rw [twosComplement, if_neg h, signedValue_append (twosComplement_ne_nil _), ih, toNat_ofInt]
    omega

/-- A number of `8 * (k + 1)` bits takes at most `k + 1` octets. -/
theorem length_twosComplement_le (k : Nat) {v : Int} (hl : -(128 * 256 ^ k) ≤ v)
    (hu : v < 128 * 256 ^ k) : (twosComplement v).length ≤ k + 1 := by
  induction k generalizing v with
  | zero => rw [twosComplement, if_pos (by omega)]; rfl
  | succ k ih =>
    rw [Int.pow_succ] at hl hu
    generalize hp : (256 : Int) ^ k = p at hl hu ih
    rw [twosComplement]
    split_ifs
    · exact Nat.le_add_left 1 _
    · -- The quotient by 256 has eight bits less.
      rw [List.length_append, List.length_singleton]
      exact Nat.add_le_add_right (ih (by omega) (by omega)) 1

/-- A number of `8 * k` bits without sign takes at most `k + 1` octets. -/
theorem length_twosComplement_natCast_le {n k : Nat} (h : n < 256 ^ k) :
    (twosComplement n).length ≤ k + 1 := by
  have hlt : (n : Int) < 256 ^ k := by exact_mod_cast h
  exact length_twosComplement_le k (by omega) (by omega)

/-! ### Unsigned readings -/

/-- The first octet is the most significant digit. -/
theorem unsignedValue_cons (b : UInt8) (content : List UInt8) :
    unsignedValue (b :: content) = b.toNat * 256 ^ content.length + unsignedValue content := by
  induction content using List.reverseRecOn with
  | nil => simp [unsignedValue]
  | append_singleton content c ih =>
    rw [← List.cons_append, unsignedValue_append, unsignedValue_append, ih,
      List.length_append, List.length_singleton, Nat.pow_succ]
    ring

theorem unsignedValue_lt (content : List UInt8) : unsignedValue content < 256 ^ content.length := by
  induction content with
  | nil => simp [unsignedValue]
  | cons b content ih =>
    have hb := b.toNat_lt
    rw [unsignedValue_cons, List.length_cons, Nat.pow_succ]
    have := Nat.mul_le_mul_right (256 ^ content.length) (Nat.le_of_lt_succ hb)
    omega

/-- A content of `k + 1` octets denotes a signed number of `8 * (k + 1)` bits. -/
theorem signedValue_bounds (first : UInt8) (rest : List UInt8) :
    -(128 * 256 ^ rest.length) ≤ signedValue (first :: rest) ∧
      signedValue (first :: rest) < 128 * 256 ^ rest.length := by
  have hfirst : first.toNat < 256 := first.toNat_lt
  have hrest := unsignedValue_lt rest
  have hsign : first < 0x80 ↔ first.toNat < 128 := UInt8.lt_iff_toNat_lt
  have hcast : ((256 ^ rest.length : Nat) : Int) = 256 ^ rest.length := by norm_cast
  rw [signedValue_cons, unsignedValue_cons, Int.pow_succ, ← hcast]
  generalize 256 ^ rest.length = p at hrest ⊢
  -- Half of the first octets make the number negative.
  split_ifs with h <;> rw [hsign] at h
  · have hmul := Nat.mul_le_mul_right p (Nat.le_of_lt_succ h)
    constructor <;> push_cast <;> omega
  · have hlow := Nat.mul_le_mul_right p (Nat.le_of_not_lt h)
    have hhigh := Nat.mul_le_mul_right p (Nat.le_of_lt_succ hfirst)
    constructor <;> push_cast <;> omega

/-- A content that denotes a number of no sign has the same reading without
    sign. -/
theorem unsignedValue_of_signedValue {content : List UInt8} {n : Nat}
    (h : signedValue content = n) : unsignedValue content = n := by
  have hlt := unsignedValue_lt content
  cases content with
  | nil => simpa [signedValue, unsignedValue, eq_comm] using h
  | cons first rest =>
    rw [signedValue_cons] at h
    split_ifs at h
    · exact_mod_cast h
    · -- A first octet with its top bit set would make the number negative.
      have hsmall : (unsignedValue (first :: rest) : Int) < 256 ^ (rest.length + 1) := by
        exact_mod_cast hlt
      omega

/-- The content of a number of no sign denotes that number. -/
theorem unsignedValue_twosComplement (n : Nat) : unsignedValue (twosComplement n) = n :=
  unsignedValue_of_signedValue (signedValue_twosComplement n)

/-- Where the number needs only the octets after the first, the first octet is
    zero. -/
theorem head?_of_unsignedValue_lt {content : List UInt8} {k : Nat}
    (hlen : content.length = k + 1) (h : unsignedValue content < 256 ^ k) :
    content.head? = some 0 := by
  cases content with
  | nil => cases hlen
  | cons first rest =>
    rw [unsignedValue_cons, Nat.succ.inj hlen] at h
    have hz : first.toNat = 0 := by
      by_contra hne
      have := Nat.mul_le_mul_right (256 ^ k) (Nat.one_le_iff_ne_zero.2 hne)
      omega
    have hfirst : first = 0 := UInt8.toNat_inj.1 hz
    rw [List.head?_cons, hfirst]

end Integer

namespace Reader

open Integer

theorem takes_integerContent (v : Int32) :
    Takes (integerContent (twosComplement v.toInt).length) (twosComplement v.toInt) v := by
  have hpos := List.length_pos_iff.2 (twosComplement_ne_nil v.toInt)
  have hle := length_twosComplement_le 3 v.le_toInt v.toInt_lt
  unfold integerContent
  rw [if_neg (by omega), if_neg (by omega)]
  have h := (takes_octets (twosComplement v.toInt)).map fun content =>
    Int32.ofInt (signedValue content)
  rwa [signedValue_twosComplement, Int32.ofInt_toInt] at h

/-- A number of at most `8 * k` bits without sign is read from its content, of
    which the longest form is the one with a leading zero. -/
theorem takes_unsignedContent {n k : Nat} (h : n < 256 ^ k) :
    Takes (unsignedContent (twosComplement n).length (k + 1)) (twosComplement n) n := by
  have hpos := List.length_pos_iff.2 (twosComplement_ne_nil n)
  have hle := length_twosComplement_natCast_le h
  unfold unsignedContent
  rw [if_neg (by omega)]
  refine takes_offset fun start => ?_
  -- Contents that are too long are refused, except for a leading zero.
  have hfine : ¬(k + 1 < (twosComplement n).length ∨
      ((twosComplement n).length = k + 1 ∧ (twosComplement n).head? ≠ some 0)) := by
    rintro (hlong | ⟨hlen, hhead⟩)
    · omega
    · exact hhead (head?_of_unsignedValue_lt hlen (by rwa [unsignedValue_twosComplement]))
  have h := (takes_octets (twosComplement n)).bind
    (f := fun content => if k + 1 < (twosComplement n).length ∨
      ((twosComplement n).length = k + 1 ∧ content.head? ≠ some 0) then
        failAt start .integerOverflow else return unsignedValue content)
    (by rw [if_neg hfine]; exact takes_pure _)
  rwa [List.append_nil, unsignedValue_twosComplement] at h

theorem takes_unsigned32Content (v : UInt32) :
    Takes (unsigned32Content (twosComplement v.toNat).length) (twosComplement v.toNat) v := by
  have hlt : v.toNat < 2 ^ 32 := v.toNat_lt
  have h := (takes_unsignedContent (k := 4) hlt).bind
    (f := fun n => if n < 2 ^ 32 then return UInt32.ofNat n else fail .integerOverflow)
    (by rw [if_pos hlt]; exact takes_pure _)
  rwa [List.append_nil, UInt32.ofNat_toNat] at h

theorem takes_unsigned64Content (v : UInt64) :
    Takes (unsigned64Content (twosComplement v.toNat).length) (twosComplement v.toNat) v := by
  have h := (takes_unsignedContent (k := 8) v.toNat_lt).map UInt64.ofNat
  rwa [UInt64.ofNat_toNat] at h

/-- The element of an INTEGER is read as the number that it was written for. -/
theorem takes_integer {v : Int32} {o : List UInt8}
    (h : Element.octets? Tag.integer (twosComplement v.toInt) = some o) : Takes integer o v :=
  takes_primitive h (takes_integerContent v)

end Reader

end SnmpAgent
