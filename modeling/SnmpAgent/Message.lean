import SnmpAgent.Config.Fault
import SnmpAgent.Pdu

/-!
# Messages

A *message* is what travels over the network: a SEQUENCE of the protocol
version, a community, which is the password of the sender, and a PDU. It is
read strictly: every container must be filled exactly by what it declares.

* `Message.encode`: the octets of a message within a size limit;
* `Message.decode`: the message that some octets are, or the first trouble.
-/

namespace SnmpAgent

/-- The largest request or reply. -/
def maxPacketSize : Nat := 2048

/-- The most varbinds of a request. -/
def maxRequestVarbinds : Nat := 20

/-- The protocol versions that the agent speaks. -/
inductive Version where
  | v1
  | v2c
  deriving DecidableEq

namespace Version

/-- The number of a version on the wire. -/
def code : Version → Int32
  | .v1 => 0
  | .v2c => 1

/-- The version with a given number. -/
def ofCode? (code : Int32) : Option Version :=
  if code = 0 then some .v1 else if code = 1 then some .v2c else none

/-- The name of a version. -/
protected def toString : Version → String
  | .v1 => "SNMPv1"
  | .v2c => "SNMPv2c"

instance : ToString Version := ⟨Version.toString⟩

end Version

/-- What travels over the network. -/
structure Message where
  version : Version
  /-- The password of the sender. -/
  community : List UInt8
  pdu : Pdu
  deriving DecidableEq

namespace Message

/-- Puts a message in front of the buffer. -/
def write (m : Message) : Writer := Writer.sequence do
  m.pdu.write
  Writer.octetString m.community
  Writer.integer m.version.code

/-- The octets of a message, of which there may be at most `limit`. -/
def encode (m : Message) (limit : Option Nat) : Except EncodeError (List UInt8) := m.write.run limit

/-- A version. -/
def readVersion : Reader Version := do
  let start ← Reader.offset
  let code ← Reader.integer
  match Version.ofCode? code with
  | some version => return version
  | none => Reader.failAt start (.unknownVersion code)

/-- A community of an acceptable length. -/
def readCommunity : Reader (List UInt8) := do
  let start ← Reader.offset
  let community ← Reader.octetString
  if community.isEmpty ∨ maxCommunityLength < community.length then
    Reader.failAt start (.invalidCommunityLength community.length)
  else return community

/-- The message of at most `max` varbinds that fills the rest of the octets. -/
def read (max : Nat) : Reader Message := do
  let n ← Reader.expectTag Tag.sequence
  Reader.expectRemaining n
  let content ← Reader.split n
  Reader.inside content do
    let version ← readVersion
    let community ← readCommunity
    let pdu ← Pdu.read max
    return ⟨version, community, pdu⟩

/-- The message that some octets are, with at most `max` varbinds. -/
def decode (data : List UInt8) (max : Nat) : Except DecodeError Message :=
  match read max (Cursor.ofMessage data) with
  | .ok m _ => .ok m
  | .error e _ => .error e

end Message

end SnmpAgent
