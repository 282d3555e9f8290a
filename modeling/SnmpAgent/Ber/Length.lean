import SnmpAgent.Ber.Fault

/-!
# Lengths

A *length* counts the content octets of an element. It has one of three forms:
a single octet below 128, or the octet `0x81` or `0x82` followed by that many
octets of a number. The writer uses the shortest form, the reader accepts all
three.

* `Length.octets`: the shortest form, for lengths up to `Length.max`;
* `Length.size`: how many octets that form has;
* `Length.decode`: the length at the beginning of some octets.
-/

namespace SnmpAgent.Length

/-- The largest length that can be written. -/
def max : Nat := 0xFFFF

/-- The shortest form of a length. -/
def octets (n : Nat) : Except EncodeError (List UInt8) :=
  if n ≤ 0x7F then .ok [UInt8.ofNat n]
  else if n ≤ 0xFF then .ok [0x81, UInt8.ofNat n]
  else if n ≤ max then .ok [0x82, UInt8.ofNat (n / 256), UInt8.ofNat n]
  else .error (.lengthTooLarge n)

/-- The number of octets of the shortest form. -/
def size (n : Nat) : Nat :=
  if n ≤ 0x7F then 1 else if n ≤ 0xFF then 2 else 3

/-- The length written at the beginning of `data`, which stands at the absolute
    offset `base`, and the number of octets that it takes. -/
def decode (data : List UInt8) (base : Nat) : Except DecodeError (Nat × Nat) :=
  match data with
  | [] => .error ⟨base, .truncatedData⟩
  | first :: rest =>
    if first < 0x80 then .ok (first.toNat, 1)
    else
      let count := first.toNat - 0x80
      if count = 0 then .error ⟨base, .indefiniteLength⟩
      else if 2 < count then .error ⟨base, .lengthTooLong count⟩
      else if rest.length < count then .error ⟨base, .truncatedData⟩
      else .ok ((rest.take count).foldl (fun n b => n * 256 + b.toNat) 0, 1 + count)

end SnmpAgent.Length
