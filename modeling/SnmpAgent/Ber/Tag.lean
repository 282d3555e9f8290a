/-!
# Tags

A *tag* is the identifier octet of an encoded element. The agent knows the
universal types of its messages, the application types of its values, the
context markers that stand for a missing value, and the PDU tags, which form
the range `firstPdu` to `lastPdu`.
-/

namespace SnmpAgent

/-- The identifier octet of an encoded element. -/
abbrev Tag := UInt8

namespace Tag

/-- INTEGER. -/
def integer : Tag := 0x02

/-- OCTET STRING. -/
def octetString : Tag := 0x04

/-- NULL. -/
def null : Tag := 0x05

/-- OBJECT IDENTIFIER. -/
def objectIdentifier : Tag := 0x06

/-- SEQUENCE. -/
def sequence : Tag := 0x30

/-- IpAddress. -/
def ipAddress : Tag := 0x40

/-- Counter32. -/
def counter32 : Tag := 0x41

/-- Gauge32. -/
def gauge32 : Tag := 0x42

/-- TimeTicks. -/
def timeTicks : Tag := 0x43

/-- Counter64. -/
def counter64 : Tag := 0x46

/-- The marker noSuchObject. -/
def noSuchObject : Tag := 0x80

/-- The marker noSuchInstance. -/
def noSuchInstance : Tag := 0x81

/-- The marker endOfMibView. -/
def endOfMibView : Tag := 0x82

/-- The first of the PDU tags. -/
def firstPdu : Tag := 0xA0

/-- The last of the PDU tags. -/
def lastPdu : Tag := 0xA8

/-- Whether the element consists of further elements: bit 6 of its tag. -/
def isConstructed (t : Tag) : Bool := t &&& 0x20 ≠ 0

end Tag

end SnmpAgent
