import SnmpAgent.Oid
import SnmpAgent.Ber.Fault

/-!
# The octets of an object identifier

The content of an OBJECT IDENTIFIER packs the first two sub-identifiers into
one number, `40 * first + second`, and then lists numbers in base 128, most
significant group first, every octet but the last of a number with its top bit
set.

* `Oid.content`: the octets of an identifier, of any length;
* `Oid.contentLength`: their number, from the sizes of the numbers alone;
* `Oid.ofContent`: the identifier that octets denote, or the first trouble.
-/

namespace SnmpAgent.Oid

/-- The number `n`, or the largest number of 32 bits where `n` exceeds it. -/
def saturate (n : Nat) : Nat := min n (1 <<< 32 - 1)

/-- The number that stands for the first two sub-identifiers. -/
def packFirst (first second : UInt32) : Nat :=
  saturate (saturate (first.toNat * 40) + second.toNat)

/-- The numbers listed by the content: the packed pair, then the other
    sub-identifiers. A lone sub-identifier is packed with zero. -/
def packed (o : Oid) : List Nat :=
  match o.subids with
  | [] => []
  | [first] => [saturate (first.toNat * 40)]
  | first :: second :: rest => packFirst first second :: rest.map UInt32.toNat

/-- The base-128 groups of a number that further groups follow, each with its
    top bit set. -/
def leadingGroups (n : Nat) : List UInt8 :=
  if n = 0 then [] else leadingGroups (n / 128) ++ [UInt8.ofNat (128 + n % 128)]

/-- The base-128 groups of a number, the last with its top bit clear. -/
def base128 (n : Nat) : List UInt8 :=
  leadingGroups (n / 128) ++ [UInt8.ofNat (n % 128)]

/-- The number of base-128 groups of a 32-bit number. -/
def base128Length (n : Nat) : Nat :=
  if n < 0x80 then 1
  else if n < 0x4000 then 2
  else if n < 0x200000 then 3
  else if n < 0x10000000 then 4
  else 5

/-- The content octets of an identifier. -/
def content (o : Oid) : List UInt8 := o.packed.flatMap base128

/-- The number of content octets of an identifier. -/
def contentLength (o : Oid) : Nat := o.packed.foldr (base128Length · + ·) 0

/-- Reads on in a base-128 number, of which `used` groups had the value `acc`.
    The octets begin at the absolute offset `base`; the answer is the number and
    how many groups it has. -/
def decodeSubidFrom (base acc used : Nat) : List UInt8 → Except DecodeError (UInt32 × Nat)
  | [] => .error ⟨base + used, .truncatedData⟩
  | b :: rest =>
    if 1 <<< 25 ≤ acc then .error ⟨base + used + 1, .integerOverflow⟩
    else
      let value := acc * 128 + b.toNat % 128
      if b < 0x80 then .ok (UInt32.ofNat value, used + 1)
      else decodeSubidFrom base value (used + 1) rest

/-- Reads one base-128 number below `2 ^ 32` and counts its groups. -/
def decodeSubid (base : Nat) (data : List UInt8) : Except DecodeError (UInt32 × Nat) :=
  decodeSubidFrom base 0 0 data

/-- Reads base-128 numbers to the end of the octets; `room` is how many
    sub-identifiers may still be taken. -/
def decodeSubids (base room : Nat) (data : List UInt8) : Except DecodeError (List UInt32) :=
  if data.isEmpty then .ok []
  else do
    let (subid, used) ← decodeSubid base data
    match room with
    | 0 => .error ⟨base, .oidTooLong (maxSubids + 1) maxSubids⟩
    | room + 1 => return subid :: (← decodeSubids (base + used) room (data.drop used))

/-- The two sub-identifiers that a packed first number stands for. -/
def unpackFirst (n : UInt32) : List UInt32 :=
  if n < 40 then [0, n] else if n < 80 then [1, n - 40] else [2, n - 80]

/-- The identifier whose content these octets are; they begin at the absolute
    offset `base`. -/
def ofContent (data : List UInt8) (base : Nat) : Except DecodeError Oid :=
  if data.isEmpty then .error ⟨base, .invalidOidEncoding⟩
  else do
    let (first, used) ← decodeSubid base data
    if maxFirstOctet < first.toNat then .error ⟨base, .invalidOidEncoding⟩
    else
      let rest ← decodeSubids (base + used) (maxSubids - 2) (data.drop used)
      return ⟨unpackFirst first ++ rest⟩

end SnmpAgent.Oid
