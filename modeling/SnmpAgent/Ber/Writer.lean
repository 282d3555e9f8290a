import SnmpAgent.Ber.Length
import SnmpAgent.Ber.Integer
import SnmpAgent.Oid.Content
import SnmpAgent.Net.Address

/-!
# Writing

A message is written from its end to its beginning: the content of an element
stands in the buffer before its length and its tag are put in front of it, so
no length has to be known in advance. A `Buffer` holds the octets written so
far, first to last, and may have a limit that it never outgrows. A `Writer`
puts octets in front of a buffer. It stops at the first octets for which there
is no room; the octets put before stay.

* `Writer.push`: puts octets in front, if they fit;
* `Writer.element`: puts a whole element in front, given its content;
* `Writer.constructed`: puts an element in front whose content is written by
  another writer.
-/

namespace SnmpAgent

/-- The octets of the end of a message. -/
structure Buffer where
  /-- The octets written so far, first to last. -/
  octets : List UInt8
  /-- The most octets that the buffer may hold. -/
  limit : Option Nat
  size : Nat
  size_eq : size = octets.length
  deriving DecidableEq

namespace Buffer

/-- The empty buffer with a given limit. -/
def empty (limit : Option Nat) : Buffer := ⟨[], limit, 0, rfl⟩

/-- The number of octets that may still be written, where there is a limit. -/
def remaining (b : Buffer) : Option Nat := b.limit.map (· - b.size)

/-- The buffer with further octets in front. -/
def prepend (octets : List UInt8) (b : Buffer) : Buffer where
  octets := octets ++ b.octets
  limit := b.limit
  size := octets.length + b.size
  size_eq := by rw [List.length_append, b.size_eq]

end Buffer

/-- A computation that puts octets in front of a buffer. -/
abbrev Writer := EStateM EncodeError Buffer Unit

namespace Writer

/-- Puts octets in front of the buffer. -/
def push (octets : List UInt8) : Writer := fun b =>
  match b.remaining with
  | some room =>
    if octets.length ≤ room then .ok () (b.prepend octets)
    else .error (.bufferFull octets.length room) b
  | none => .ok () (b.prepend octets)

/-- Puts a length in front. -/
def length (n : Nat) : Writer :=
  match Length.octets n with
  | .ok octets => push octets
  | .error e => throw e

/-- Puts a tag in front. -/
def tag (t : Tag) : Writer := push [t]

/-- Puts an element in front whose content is given. -/
def element (t : Tag) (content : List UInt8) : Writer := do
  push content
  length content.length
  tag t

/-- Puts an element in front whose content is what another writer puts in
    front. -/
def constructed (t : Tag) (content : Writer) : Writer := do
  let before ← get
  content
  let after ← get
  length (after.size - before.size)
  tag t

/-- Puts a SEQUENCE in front. -/
def sequence (content : Writer) : Writer := constructed Tag.sequence content

/-- Puts one thing after another in front, the last one first, so that they
    stand in order. -/
def inOrder {α : Type} (write : α → Writer) (xs : List α) : Writer := xs.reverse.forM write

/-- Puts an INTEGER in front. -/
def integer (v : Int32) : Writer := element Tag.integer (Integer.signedOctets v)

/-- Puts an unsigned number of 32 bits in front, with a given tag. -/
def unsigned32 (t : Tag) (v : UInt32) : Writer := element t (Integer.unsignedOctets 4 v.toNat)

/-- Puts a Counter64 in front. -/
def unsigned64 (v : UInt64) : Writer := element Tag.counter64 (Integer.unsignedOctets 8 v.toNat)

/-- Puts an OCTET STRING in front. -/
def octetString (octets : List UInt8) : Writer := element Tag.octetString octets

/-- Puts an element without content in front. -/
def marker (t : Tag) : Writer := element t []

/-- Puts an OBJECT IDENTIFIER in front. -/
def oid (o : Oid) : Writer := element Tag.objectIdentifier o.content

/-- Puts an IpAddress in front. -/
def ipAddress (a : Ipv4) : Writer := element Tag.ipAddress a.octets

/-- What a writer leaves in an empty buffer. -/
def run (w : Writer) (limit : Option Nat) : Except EncodeError (List UInt8) :=
  match w (Buffer.empty limit) with
  | .ok _ b => .ok b.octets
  | .error e _ => .error e

end Writer

end SnmpAgent
