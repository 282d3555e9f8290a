import SnmpAgent.VarBind

/-!
# Protocol data units

A *PDU* says what is asked or answered. All types share one layout: a request
id, two integers and a list of varbinds. In a reply the two integers are an
error status and the position of the varbind at fault; in a bulk request they
are the number of varbinds that are not repeated and how often the others are.

* `Pdu.write`: the encoded element;
* `Pdu.read`: the PDU that fills the rest of a container exactly.
-/

namespace SnmpAgent

/-- The types of PDUs. -/
inductive PduType where
  | getRequest
  | getNextRequest
  | response
  | setRequest
  | trapV1
  | getBulkRequest
  | informRequest
  | trapV2
  | report
  deriving DecidableEq

namespace PduType

/-- All types, in the order of their tags. -/
def all : List PduType :=
  [.getRequest, .getNextRequest, .response, .setRequest, .trapV1, .getBulkRequest, .informRequest,
    .trapV2, .report]

/-- The tag of a type. -/
def tag : PduType → Tag
  | .getRequest => 0xA0
  | .getNextRequest => 0xA1
  | .response => 0xA2
  | .setRequest => 0xA3
  | .trapV1 => 0xA4
  | .getBulkRequest => 0xA5
  | .informRequest => 0xA6
  | .trapV2 => 0xA7
  | .report => 0xA8

/-- The type with a given tag. -/
def ofTag? (t : Tag) : Option PduType := all.find? (·.tag = t)

/-- Every type is found by its tag. -/
theorem ofTag?_tag (t : PduType) : ofTag? t.tag = some t := by
  cases t <;> rfl

/-- The name of a type. -/
protected def toString : PduType → String
  | .getRequest => "GetRequest"
  | .getNextRequest => "GetNextRequest"
  | .response => "Response"
  | .setRequest => "SetRequest"
  | .trapV1 => "TrapV1"
  | .getBulkRequest => "GetBulkRequest"
  | .informRequest => "InformRequest"
  | .trapV2 => "TrapV2"
  | .report => "Report"

instance : ToString PduType := ⟨PduType.toString⟩

end PduType

/-- The outcomes that a reply reports, and the codes without a name. -/
inductive ErrorStatus where
  | noError
  | tooBig
  | noSuchName
  | badValue
  | readOnly
  | genErr
  | noAccess
  | wrongType
  | wrongLength
  | wrongEncoding
  | wrongValue
  | noCreation
  | inconsistentValue
  | resourceUnavailable
  | commitFailed
  | undoFailed
  | authorizationError
  | notWritable
  | inconsistentName
  | unknown (code : Int32)
  deriving DecidableEq

namespace ErrorStatus

/-- The named outcomes, in the order of their codes. -/
def named : List ErrorStatus :=
  [.noError, .tooBig, .noSuchName, .badValue, .readOnly, .genErr, .noAccess, .wrongType,
    .wrongLength, .wrongEncoding, .wrongValue, .noCreation, .inconsistentValue,
    .resourceUnavailable, .commitFailed, .undoFailed, .authorizationError, .notWritable,
    .inconsistentName]

/-- The code of an outcome. -/
def code : ErrorStatus → Int32
  | .noError => 0
  | .tooBig => 1
  | .noSuchName => 2
  | .badValue => 3
  | .readOnly => 4
  | .genErr => 5
  | .noAccess => 6
  | .wrongType => 7
  | .wrongLength => 8
  | .wrongEncoding => 9
  | .wrongValue => 10
  | .noCreation => 11
  | .inconsistentValue => 12
  | .resourceUnavailable => 13
  | .commitFailed => 14
  | .undoFailed => 15
  | .authorizationError => 16
  | .notWritable => 17
  | .inconsistentName => 18
  | .unknown code => code

/-- The outcome with a given code. -/
def ofCode (code : Int32) : ErrorStatus :=
  (named.find? (·.code = code)).getD (.unknown code)

/-- Whether the outcome is a failure. -/
def isError (s : ErrorStatus) : Bool := s ≠ .noError

/-- The name of an outcome. -/
protected def toString : ErrorStatus → String
  | .noError => "noError"
  | .tooBig => "tooBig"
  | .noSuchName => "noSuchName"
  | .badValue => "badValue"
  | .readOnly => "readOnly"
  | .genErr => "genErr"
  | .noAccess => "noAccess"
  | .wrongType => "wrongType"
  | .wrongLength => "wrongLength"
  | .wrongEncoding => "wrongEncoding"
  | .wrongValue => "wrongValue"
  | .noCreation => "noCreation"
  | .inconsistentValue => "inconsistentValue"
  | .resourceUnavailable => "resourceUnavailable"
  | .commitFailed => "commitFailed"
  | .undoFailed => "undoFailed"
  | .authorizationError => "authorizationError"
  | .notWritable => "notWritable"
  | .inconsistentName => "inconsistentName"
  | .unknown code => s!"unknown({code.toInt})"

instance : ToString ErrorStatus := ⟨ErrorStatus.toString⟩

end ErrorStatus

/-- What is asked or answered. -/
structure Pdu where
  type : PduType
  /-- The number by which a reply is matched with its request. -/
  requestId : Int32
  /-- The code of the outcome; in a bulk request the number of varbinds that are
      not repeated. -/
  errorStatus : Int32
  /-- The position at fault; in a bulk request how often the other varbinds are
      repeated. -/
  errorIndex : Int32
  varbinds : List VarBind
  deriving DecidableEq

namespace Pdu

/-- A reply. -/
def response (requestId : Int32) (status : ErrorStatus) (errorIndex : Int32)
    (varbinds : List VarBind) : Pdu :=
  ⟨.response, requestId, status.code, errorIndex, varbinds⟩

/-- How many varbinds of a bulk request are not repeated. A negative number
    counts as zero. -/
def nonRepeaters (p : Pdu) : Nat := p.errorStatus.toInt.toNat

/-- How often the other varbinds of a bulk request are repeated. A negative
    number counts as zero. -/
def maxRepetitions (p : Pdu) : Nat := p.errorIndex.toInt.toNat

/-- The outcome that a reply reports. -/
def status (p : Pdu) : ErrorStatus := ErrorStatus.ofCode p.errorStatus

/-- Puts a PDU in front of the buffer. -/
def write (p : Pdu) : Writer := Writer.constructed p.type.tag do
  VarBind.writeList p.varbinds
  Writer.integer p.errorIndex
  Writer.integer p.errorStatus
  Writer.integer p.requestId

/-- The PDU of at most `max` varbinds that fills the rest of the container. -/
def read (max : Nat) : Reader Pdu := do
  let start ← Reader.offset
  let tag ← Reader.octet
  match PduType.ofTag? tag with
  | none => Reader.failAt start (.unknownPduType tag)
  | some type =>
    let n ← Reader.length
    Reader.expectRemaining n
    let content ← Reader.split n
    Reader.inside content do
      let requestId ← Reader.integer
      let errorStatus ← Reader.integer
      let errorIndex ← Reader.integer
      let varbinds ← VarBind.readList max
      Reader.expectRemaining 0
      return ⟨type, requestId, errorStatus, errorIndex, varbinds⟩

end Pdu

end SnmpAgent
