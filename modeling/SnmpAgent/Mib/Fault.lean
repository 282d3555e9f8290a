import SnmpAgent.Oid
import SnmpAgent.Ber.Tag

/-!
# Faults of the management tree

Why a variable cannot be entered into the table of variables.
-/

namespace SnmpAgent

/-- Why a variable is refused. -/
inductive MibFault where
  | tableOverflow (capacity : Nat)
  | oidOverflow (count max : Nat)
  | unsupportedType (tag : Tag)
  | typeMismatch (declared actual : Tag)
  | outOfOrder
  deriving DecidableEq

/-- The wording of a fault. -/
def MibFault.message : MibFault → String
  | .tableOverflow capacity => s!"table overflow (capacity {capacity})"
  | .oidOverflow count max => s!"OID has {count} sub-identifiers, maximum is {max}"
  | .unsupportedType tag => s!"unsupported type 0x{Text.hexOctet tag}"
  | .typeMismatch declared actual =>
    s!"declared type 0x{Text.hexOctet declared} but value is 0x{Text.hexOctet actual}"
  | .outOfOrder => "entry not in ascending OID order"

end SnmpAgent
