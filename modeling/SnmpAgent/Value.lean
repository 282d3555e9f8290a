import SnmpAgent.Ber.Reader
import SnmpAgent.Ber.Writer

/-!
# Values

A *value* is what a varbind carries and what a variable of the agent holds: a
number, a string of octets, an identifier, an address, or one of the markers
that stand in for a missing value. Each value has a type, and each type a tag;
`ValueType.ofTag?` finds the type of a tag again.

* `Value.write`, `Value.tlv`: the encoded element of a value;
* `Value.read`: the value of the next element. A marker must be empty, and
  every other type but OCTET STRING must have content;
* `Value.toString`: the text of a value.
-/

namespace SnmpAgent

/-- The types of values. -/
inductive ValueType where
  | integer
  | octetString
  | null
  | objectIdentifier
  | ipAddress
  | counter32
  | gauge32
  | timeTicks
  | counter64
  | noSuchObject
  | noSuchInstance
  | endOfMibView
  deriving DecidableEq

namespace ValueType

/-- The tag of a type. -/
def tag : ValueType → Tag
  | .integer => Tag.integer
  | .octetString => Tag.octetString
  | .null => Tag.null
  | .objectIdentifier => Tag.objectIdentifier
  | .ipAddress => Tag.ipAddress
  | .counter32 => Tag.counter32
  | .gauge32 => Tag.gauge32
  | .timeTicks => Tag.timeTicks
  | .counter64 => Tag.counter64
  | .noSuchObject => Tag.noSuchObject
  | .noSuchInstance => Tag.noSuchInstance
  | .endOfMibView => Tag.endOfMibView

/-- All types. -/
def all : List ValueType :=
  [.integer, .octetString, .null, .objectIdentifier, .ipAddress, .counter32, .gauge32, .timeTicks,
    .counter64, .noSuchObject, .noSuchInstance, .endOfMibView]

/-- The type with a given tag. -/
def ofTag? (t : Tag) : Option ValueType := all.find? (·.tag = t)

/-- Every type is found by its tag. -/
theorem ofTag?_tag (t : ValueType) : ofTag? t.tag = some t := by
  cases t <;> rfl

/-- Whether the values of a type have no content. -/
def isMarker : ValueType → Bool
  | .null | .noSuchObject | .noSuchInstance | .endOfMibView => true
  | _ => false

end ValueType

/-- What a varbind carries and a variable holds. -/
inductive Value where
  | integer (v : Int32)
  | octetString (octets : List UInt8)
  | null
  | objectIdentifier (oid : Oid)
  | ipAddress (address : Ipv4)
  | counter32 (v : UInt32)
  | gauge32 (v : UInt32)
  | timeTicks (v : UInt32)
  | counter64 (v : UInt64)
  | noSuchObject
  | noSuchInstance
  | endOfMibView
  deriving DecidableEq

namespace Value

/-- The string of octets that encodes a text. -/
def ofString (text : String) : Value := .octetString text.toUTF8.toList

/-- The type of a value. -/
def type : Value → ValueType
  | .integer _ => .integer
  | .octetString _ => .octetString
  | .null => .null
  | .objectIdentifier _ => .objectIdentifier
  | .ipAddress _ => .ipAddress
  | .counter32 _ => .counter32
  | .gauge32 _ => .gauge32
  | .timeTicks _ => .timeTicks
  | .counter64 _ => .counter64
  | .noSuchObject => .noSuchObject
  | .noSuchInstance => .noSuchInstance
  | .endOfMibView => .endOfMibView

/-- The tag of a value. -/
def tag (v : Value) : Tag := v.type.tag

/-- The number of an INTEGER. -/
def int32? : Value → Option Int32
  | .integer v => some v
  | _ => none

/-- The number of an unsigned type of 32 bits. -/
def uint32? : Value → Option UInt32
  | .counter32 v | .gauge32 v | .timeTicks v => some v
  | _ => none

/-- The octets of an OCTET STRING. -/
def octets? : Value → Option (List UInt8)
  | .octetString octets => some octets
  | _ => none

/-- The text that an OCTET STRING encodes. -/
def text? (v : Value) : Option String := do String.fromUTF8? (← v.octets?).toByteArray

/-- The name of an OBJECT IDENTIFIER. -/
def oid? : Value → Option Oid
  | .objectIdentifier oid => some oid
  | _ => none

/-- Whether the value says that something is missing. -/
def isException : Value → Bool
  | .noSuchObject | .noSuchInstance | .endOfMibView => true
  | _ => false

/-- Puts the element of a value in front of the buffer. -/
def write : Value → Writer
  | .integer v => Writer.integer v
  | .octetString octets => Writer.octetString octets
  | .objectIdentifier oid => Writer.oid oid
  | .ipAddress address => Writer.ipAddress address
  | .counter32 v => Writer.unsigned32 Tag.counter32 v
  | .gauge32 v => Writer.unsigned32 Tag.gauge32 v
  | .timeTicks v => Writer.unsigned32 Tag.timeTicks v
  | .counter64 v => Writer.unsigned64 v
  | .null => Writer.marker Tag.null
  | .noSuchObject => Writer.marker Tag.noSuchObject
  | .noSuchInstance => Writer.marker Tag.noSuchInstance
  | .endOfMibView => Writer.marker Tag.endOfMibView

/-- The octets of the element of a value: tag, length and content. -/
def tlv (v : Value) : Except EncodeError (List UInt8) := v.write.run none

/-- The value of a type whose content has `n` octets. -/
def readContent (n : Nat) : ValueType → Reader Value
  | .integer => return .integer (← Reader.integerContent n)
  | .octetString => return .octetString (← Reader.octets n)
  | .objectIdentifier => return .objectIdentifier (← Reader.oidContent n)
  | .ipAddress => return .ipAddress (← Reader.ipAddressContent n)
  | .counter32 => return .counter32 (← Reader.unsigned32Content n)
  | .gauge32 => return .gauge32 (← Reader.unsigned32Content n)
  | .timeTicks => return .timeTicks (← Reader.unsigned32Content n)
  | .counter64 => return .counter64 (← Reader.unsigned64Content n)
  | .null => return .null
  | .noSuchObject => return .noSuchObject
  | .noSuchInstance => return .noSuchInstance
  | .endOfMibView => return .endOfMibView

/-- The value of the next element. -/
def read : Reader Value := do
  let start ← Reader.offset
  let tag ← Reader.octet
  let n ← Reader.length
  match ValueType.ofTag? tag with
  | none => Reader.failAt start (.unsupportedTag tag)
  | some type =>
    if type.isMarker ∧ n ≠ 0 then Reader.failAt start .invalidNull
    else if ¬type.isMarker ∧ n = 0 ∧ type ≠ .octetString then
      Reader.failAt start (.emptyValue tag)
    else readContent n type

/-- The text of a value. -/
protected def toString : Value → String
  | .integer v => s!"INTEGER: {v.toInt}"
  | .octetString octets =>
    match String.fromUTF8? octets.toByteArray with
    | some text => "STRING: \"" ++ text ++ "\""
    | none => octets.foldl (fun text b => text ++ " " ++ Text.hexOctet b) "Hex-STRING:"
  | .null => "NULL"
  | .objectIdentifier oid => s!"OID: {oid}"
  | .ipAddress address => s!"IpAddress: {address.toString}"
  | .counter32 v => s!"Counter32: {v.toNat}"
  | .gauge32 v => s!"Gauge32: {v.toNat}"
  | .timeTicks v => s!"Timeticks: ({v.toNat})"
  | .counter64 v => s!"Counter64: {v.toNat}"
  | .noSuchObject => "No Such Object available on this agent at this OID"
  | .noSuchInstance => "No Such Instance currently exists at this OID"
  | .endOfMibView => "No more variables left in this MIB View"

instance : ToString Value := ⟨Value.toString⟩

end Value

end SnmpAgent
