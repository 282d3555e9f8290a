import SnmpAgent.Message

/-!
# Frames

A stream delivers messages in arbitrary pieces. Whether the octets received so
far are a whole message is decided from the header of the outermost SEQUENCE
alone: a *frame* is incomplete, complete, or refused because the stream cannot
be a message any more.

* `Frame.status`: the decision for some octets;
* `FrameBuffer`: the octets of one client, received or about to be sent, in a
  space of fixed size.

A buffer forgets octets by forgetting how many there are; the space keeps what
was last written to it.
-/

namespace SnmpAgent

/-- The number of octets before which no frame is judged. -/
def minPacketSize : Nat := 25

namespace Frame

/-- What some octets of a stream are: exactly one message, or the beginning of
    one, of which further octets are needed. -/
inductive Status where
  | incomplete
  | complete
  deriving DecidableEq

/-- Decides whether some octets are one whole message. -/
def status (data : List UInt8) : Except DecodeError Status :=
  match data with
  | [] => .ok .incomplete
  | tag :: rest =>
    if data.length < minPacketSize then .ok .incomplete
    else if tag ≠ Tag.sequence then .error ⟨0, .unexpectedTag Tag.sequence tag⟩
    else do
      let (n, used) ← Length.decode rest 1
      let total := 1 + used + n
      if n = 0 ∨ maxPacketSize < total then .error ⟨1, .lengthExceedsMax total maxPacketSize⟩
      else if data.length < total then .ok .incomplete
      else if data.length = total then .ok .complete
      else .error ⟨total, .lengthMismatch total data.length⟩

end Frame

/-- A space of fixed size for the octets of one client. -/
structure FrameBuffer where
  /-- The whole space. -/
  space : List UInt8
  /-- How many octets at its beginning are in use. -/
  used : Nat
  deriving DecidableEq

namespace FrameBuffer

/-- The unused space for one message. -/
def empty : FrameBuffer := ⟨List.replicate maxPacketSize 0, 0⟩

/-- The size of the space. -/
def capacity (f : FrameBuffer) : Nat := f.space.length

/-- The octets in use. -/
def filled (f : FrameBuffer) : List UInt8 := f.space.take f.used

/-- The size of the space that is not in use. -/
def spare (f : FrameBuffer) : Nat := f.capacity - f.used

/-- Whether no octet is in use. -/
def isEmpty (f : FrameBuffer) : Bool := f.used = 0

/-- Whether the whole space is in use. -/
def isFull (f : FrameBuffer) : Bool := f.used = f.capacity

/-- Puts octets into the space behind the first `start`, as many as fit, and
    leaves the use as it is. -/
def store (f : FrameBuffer) (start : Nat) (octets : List UInt8) : FrameBuffer :=
  let octets := octets.take (f.capacity - start)
  { f with space := f.space.take start ++ octets ++ f.space.drop (start + octets.length) }

/-- Takes `n` more octets of the space into use, as far as there are so many. -/
def advance (f : FrameBuffer) (n : Nat) : FrameBuffer :=
  { f with used := min (f.used + n) f.capacity }

/-- What the octets in use are. -/
def status (f : FrameBuffer) : Except DecodeError Frame.Status := Frame.status f.filled

/-- Appends as many of the octets as fit. -/
def extend (f : FrameBuffer) (octets : List UInt8) : FrameBuffer :=
  let taken := octets.take f.spare
  (f.store f.used taken).advance taken.length

/-- Replaces the octets in use by a message, if it fits into the space. -/
def stage? (f : FrameBuffer) (message : List UInt8) : Option FrameBuffer :=
  if message.length ≤ f.capacity then some { f.store 0 message with used := message.length }
  else none

/-- Takes all octets out of use. -/
def clear (f : FrameBuffer) : FrameBuffer := { f with used := 0 }

end FrameBuffer

end SnmpAgent
