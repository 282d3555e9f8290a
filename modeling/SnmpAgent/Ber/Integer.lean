/-!
# Integers in two's complement

The content of an INTEGER is a number in two's complement, most significant
octet first, without leading octets that only repeat the sign. Unsigned types
are written as the same non-negative number, with a leading zero octet where
the top bit would otherwise read as a sign.

* `signedOctets`, `unsignedOctets`: the content that is written for a number;
* `signedValue`: the number that a content denotes;
* `unsignedValue`: the number that a content denotes when no octet is a sign.
-/

namespace SnmpAgent.Integer

/-- The number whose base-256 digits are these octets. -/
def unsignedValue (content : List UInt8) : Nat :=
  content.foldl (fun n b => n * 256 + b.toNat) 0

/-- The number that a content denotes: its top bit counts negatively. -/
def signedValue (content : List UInt8) : Int :=
  match content with
  | [] => 0
  | first :: _ =>
    if first < 0x80 then unsignedValue content
    else unsignedValue content - Int.pow 256 content.length

/-- The last `size` octets of a number, most significant first. -/
def bigEndian : (size : Nat) → (v : Int) → List UInt8
  | 0, _ => []
  | size + 1, v => bigEndian size (v / 256) ++ [UInt8.ofInt v]

/-- The octet that consists of the sign of a number. -/
def signOctet (negative : Bool) : UInt8 := if negative then 0xFF else 0

/-- Leaves out leading octets that consist of the sign, as long as the next
    octet shows it too. -/
def dropSigns (negative : Bool) : List UInt8 → List UInt8
  | first :: second :: rest =>
    if first = signOctet negative ∧ (0x80 ≤ second ↔ negative) then
      dropSigns negative (second :: rest)
    else first :: second :: rest
  | content => content

/-- The content that is written for a signed number. -/
def signedOctets (v : Int32) : List UInt8 := dropSigns (v.toInt < 0) (bigEndian 4 v.toInt)

/-- Leaves out leading zeros, but not the last octet. -/
def dropZeros : List UInt8 → List UInt8
  | first :: second :: rest =>
    if first = 0 then dropZeros (second :: rest) else first :: second :: rest
  | content => content

/-- The content that is written for an unsigned number of `size` octets. A zero
    in front keeps the top bit from being read as a sign. -/
def unsignedOctets (size n : Nat) : List UInt8 :=
  match dropZeros (bigEndian size n) with
  | [] => []
  | first :: rest => if first < 0x80 then first :: rest else 0 :: first :: rest

end SnmpAgent.Integer
