import SnmpAgent.Ber.Tag
import SnmpAgent.Text.Digits

/-!
# Faults of reading and writing

A message that cannot be read is refused with the absolute offset of the
trouble and its cause (`DecodeError`); an element that cannot be written is
refused with its cause alone (`EncodeError`).

* `DecodeError.message`, `EncodeError.message`: the wording of each.
-/

namespace SnmpAgent

/-- Why octets do not form the expected element. Of a message, a length that
    exceeds the maximum may also be a declaration of no octets; an identifier is
    encoded invalidly without octets, or with a first group out of range. -/
inductive DecodeFault where
  | unexpectedTag (expected actual : Tag)
  | truncatedData
  | insufficientData (needed available : Nat)
  | indefiniteLength
  | lengthTooLong (octets : Nat)
  | lengthExceedsMax (length max : Nat)
  | zeroLengthInteger
  | integerOverflow
  | invalidOidEncoding
  | oidTooLong (count max : Nat)
  | unknownVersion (version : Int32)
  | unknownPduType (tag : Tag)
  | unsupportedTag (tag : Tag)
  | invalidNull
  | emptyValue (tag : Tag)
  | invalidIpAddressLength (length : Nat)
  | tooManyVarbinds (max : Nat)
  | invalidCommunityLength (length : Nat)
  | lengthMismatch (declared actual : Nat)
  deriving DecidableEq

/-- A refusal to read, with the offset of the trouble in the whole message. -/
structure DecodeError where
  offset : Nat
  fault : DecodeFault
  deriving DecidableEq

/-- Why an element cannot be written: its content is longer than a length can
    say, or the buffer has less room than the next octets need. -/
inductive EncodeError where
  | lengthTooLarge (length : Nat)
  | bufferFull (needed remaining : Nat)
  deriving DecidableEq

/-- The wording of a cause. -/
def DecodeFault.message : DecodeFault → String
  | .unexpectedTag expected actual =>
    s!"expected tag 0x{Text.hexOctet expected}, got 0x{Text.hexOctet actual}"
  | .truncatedData => "unexpected end of data"
  | .insufficientData needed available => s!"need {needed} bytes but only {available} remaining"
  | .indefiniteLength => "indefinite length encoding not supported"
  | .lengthTooLong octets => s!"length encoding too long ({octets} octets)"
  | .lengthExceedsMax length max => s!"length {length} exceeds maximum {max}"
  | .zeroLengthInteger => "zero-length integer"
  | .integerOverflow => "integer overflow"
  | .invalidOidEncoding => "invalid OID encoding"
  | .oidTooLong count max => s!"OID has {count} sub-identifiers, maximum is {max}"
  | .unknownVersion version => s!"unknown SNMP version: {version.toInt}"
  | .unknownPduType tag => s!"unknown PDU type: 0x{Text.hexOctet tag}"
  | .unsupportedTag tag => s!"unsupported value type: 0x{Text.hexOctet tag}"
  | .invalidNull => "NULL with non-zero length"
  | .emptyValue tag => s!"value of type 0x{Text.hexOctet tag} has zero length"
  | .invalidIpAddressLength length => s!"IP address must be 4 bytes, got {length}"
  | .tooManyVarbinds max => s!"more than {max} varbinds"
  | .invalidCommunityLength length => s!"community length {length} out of range"
  | .lengthMismatch declared actual => s!"declared length {declared} but {actual} bytes follow"

/-- The wording of a refusal to read. -/
def DecodeError.message (e : DecodeError) : String :=
  s!"decode error at offset {e.offset}: {e.fault.message}"

/-- The wording of a cause that keeps an element from being written. -/
def EncodeError.reason : EncodeError → String
  | .lengthTooLarge length => s!"length {length} exceeds 65535"
  | .bufferFull needed remaining => s!"need {needed} bytes but only {remaining} left in buffer"

/-- The wording of a refusal to write. -/
def EncodeError.message (e : EncodeError) : String := s!"encode error: {e.reason}"

end SnmpAgent
