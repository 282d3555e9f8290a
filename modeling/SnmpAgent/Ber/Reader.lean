import SnmpAgent.Ber.Length
import SnmpAgent.Ber.Integer
import SnmpAgent.Net.Address
import SnmpAgent.Oid.Content

/-!
# Reading

A `Cursor` is a place in a received message: the absolute offset of the next
unread octet and the octets from there to the end of the container that is
being read. A `Reader` takes octets from a cursor. It keeps what it has taken
when it fails, so that the cursor always tells how far the reading went.

A container is read by `Reader.split`, which takes its content as a cursor of
its own, and `Reader.inside`, which reads in there: whatever happens inside,
the outer cursor stays behind the container.

* `Reader.octets`: takes exactly `n` octets or fails without taking any;
* `Reader.expectTag`: the length of an element that must have a given tag;
* `Reader.expectRemaining`: the check that a container is exactly filled.
-/

namespace SnmpAgent

/-- A place in a received message. -/
structure Cursor where
  /-- The absolute offset of the next unread octet. -/
  offset : Nat
  /-- The unread octets of the container. -/
  rest : List UInt8
  deriving DecidableEq

/-- The number of unread octets. -/
def Cursor.remaining (c : Cursor) : Nat := c.rest.length

/-- The cursor at the beginning of a message. -/
def Cursor.ofMessage (data : List UInt8) : Cursor := ⟨0, data⟩

/-- The cursor behind the next `n` octets. -/
def Cursor.skip (c : Cursor) (n : Nat) : Cursor := ⟨c.offset + n, c.rest.drop n⟩

/-- A computation that takes octets from a cursor and may refuse them. -/
abbrev Reader := EStateM DecodeError Cursor

namespace Reader

variable {α : Type}

/-- Refuses the octets at a given offset. -/
def failAt (offset : Nat) (fault : DecodeFault) : Reader α := throw ⟨offset, fault⟩

/-- Refuses the octets at the cursor. -/
def fail (fault : DecodeFault) : Reader α := fun c => .error ⟨c.offset, fault⟩ c

/-- Goes on with a result that was computed from octets already taken. -/
def ofExcept : Except DecodeError α → Reader α
  | .ok a => pure a
  | .error e => throw e

/-- The absolute offset of the next unread octet. -/
def offset : Reader Nat := fun c => .ok c.offset c

/-- Whether all octets are taken. -/
def isEmpty : Reader Bool := fun c => .ok c.rest.isEmpty c

/-- The next octet, without taking it. -/
def peek : Reader (Option UInt8) := fun c => .ok c.rest.head? c

/-- Takes one octet. -/
def octet : Reader UInt8 := fun c =>
  match c.rest with
  | [] => .error ⟨c.offset, .truncatedData⟩ c
  | b :: _ => .ok b (c.skip 1)

/-- Takes `n` octets. -/
def octets (n : Nat) : Reader (List UInt8) := fun c =>
  if n ≤ c.remaining then .ok (c.rest.take n) (c.skip n)
  else .error ⟨c.offset, .insufficientData n c.remaining⟩ c

/-- Takes a length. Whether that many octets follow is not checked. -/
def length : Reader Nat := fun c =>
  match Length.decode c.rest c.offset with
  | .ok (n, used) => .ok n (c.skip used)
  | .error e => .error e c

/-- Takes a tag, which must be `expected`, and the length after it. -/
def expectTag (expected : Tag) : Reader Nat := do
  let start ← offset
  let tag ← octet
  if tag = expected then length else failAt start (.unexpectedTag expected tag)

/-- The content of an INTEGER of `n` octets. -/
def integerContent (n : Nat) : Reader Int32 := do
  if n = 0 then fail .zeroLengthInteger
  else if 4 < n then fail .integerOverflow
  else return Int32.ofInt (Integer.signedValue (← octets n))

/-- An INTEGER. -/
def integer : Reader Int32 := do integerContent (← expectTag Tag.integer)

/-- The content of an unsigned number of `n` octets, which are at most `max`,
    the longest form being the one with a leading zero. -/
def unsignedContent (n max : Nat) : Reader Nat := do
  if n = 0 then fail .zeroLengthInteger
  else
    let start ← offset
    let content ← octets n
    if max < n ∨ (n = max ∧ content.head? ≠ some 0) then failAt start .integerOverflow
    else return Integer.unsignedValue content

/-- The content of an unsigned number of 32 bits. -/
def unsigned32Content (n : Nat) : Reader UInt32 := do
  let value ← unsignedContent n 5
  if value < 1 <<< 32 then return UInt32.ofNat value else fail .integerOverflow

/-- An unsigned number of 32 bits with a given tag. -/
def unsigned32 (tag : Tag) : Reader UInt32 := do unsigned32Content (← expectTag tag)

/-- The content of an unsigned number of 64 bits. -/
def unsigned64Content (n : Nat) : Reader UInt64 := do
  return UInt64.ofNat (← unsignedContent n 9)

/-- An unsigned number of 64 bits with a given tag. -/
def unsigned64 (tag : Tag) : Reader UInt64 := do unsigned64Content (← expectTag tag)

/-- An OCTET STRING. -/
def octetString : Reader (List UInt8) := do octets (← expectTag Tag.octetString)

/-- A NULL. -/
def null : Reader Unit := do
  if (← expectTag Tag.null) = 0 then return () else fail .invalidNull

/-- The content of an OBJECT IDENTIFIER of `n` octets. -/
def oidContent (n : Nat) : Reader Oid := do
  let start ← offset
  let content ← octets n
  ofExcept (Oid.ofContent content start)

/-- An OBJECT IDENTIFIER. -/
def oid : Reader Oid := do oidContent (← expectTag Tag.objectIdentifier)

/-- The content of an IpAddress of `n` octets. -/
def ipAddressContent (n : Nat) : Reader Ipv4 := fun c =>
  if n = 4 then
    match c.rest with
    | a :: b :: d :: e :: _ => .ok ⟨a, b, d, e⟩ (c.skip 4)
    | _ => .error ⟨c.offset, .insufficientData 4 c.remaining⟩ c
  else .error ⟨c.offset, .invalidIpAddressLength n⟩ c

/-- An IpAddress. -/
def ipAddress : Reader Ipv4 := do ipAddressContent (← expectTag Tag.ipAddress)

/-- Takes the next `n` octets as a container of their own. -/
def split (n : Nat) : Reader Cursor := do
  let start ← offset
  return ⟨start, ← octets n⟩

/-- Takes a constructed element with a given tag as a container of its own. -/
def constructed (tag : Tag) : Reader Cursor := do split (← expectTag tag)

/-- Reads in a container that was taken before. -/
def inside (container : Cursor) (r : Reader α) : Reader α := fun c =>
  match r container with
  | .ok a _ => .ok a c
  | .error e _ => .error e c

/-- Checks that exactly `n` octets are left. -/
def expectRemaining (n : Nat) : Reader Unit := fun c =>
  if c.remaining = n then .ok () c else .error ⟨c.offset, .lengthMismatch n c.remaining⟩ c

end Reader

end SnmpAgent
