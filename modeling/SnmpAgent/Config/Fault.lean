import SnmpAgent.Oid

/-!
# Faults of a configuration

Why a configuration cannot be used, and the limits that it must keep.
-/

namespace SnmpAgent

/-- The most interfaces that may be configured. -/
def maxInterfaces : Nat := 8

/-- The most disks that may be configured. -/
def maxDisks : Nat := 4

/-- The longest community. -/
def maxCommunityLength : Nat := 63

/-- Why a configuration cannot be used. A community has the wrong length if it
    is empty or too long; a file is malformed if it is not of the expected
    form. -/
inductive ConfigFault where
  | tooManyInterfaces (count : Nat)
  | tooManyDisks (count : Nat)
  | communityLength
  | zeroTimeout
  | invalidVendor (oid : Oid) (fault : Oid.Fault)
  | unreadable (path reason : String)
  | malformed
  | stated (reason : String)
  deriving DecidableEq

/-- The wording of a fault. -/
def ConfigFault.message : ConfigFault → String
  | .tooManyInterfaces count =>
    s!"{count} interfaces configured, at most {maxInterfaces} supported"
  | .tooManyDisks count => s!"{count} disks configured, at most {maxDisks} supported"
  | .communityLength => s!"community must be 1 to {maxCommunityLength} characters"
  | .zeroTimeout => "timeout must be positive"
  | .invalidVendor oid fault => s!"vendor OID {oid}: {fault.message}"
  | .unreadable path reason => s!"cannot read {path}: {reason}"
  | .malformed => "invalid JSON configuration"
  | .stated reason => reason

end SnmpAgent
