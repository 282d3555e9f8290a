import SnmpAgent.Error
import SnmpAgent.Message

/-!
# The configuration of the agent

What the agent reports about itself, whom it answers, which interfaces and
disks it reports on, and how often it refreshes its figures.

* `AgentConfig.validate`: the limits that a usable configuration keeps; the
  first one that is broken is reported.
-/

namespace SnmpAgent

/-- What the agent reports about itself and whom it answers. -/
structure AgentConfig where
  /-- The text of sysDescr. -/
  description : String := ""
  /-- The text of sysContact. -/
  contact : String := ""
  /-- The text of sysLocation. -/
  location : String := ""
  /-- The name of sysObjectID. -/
  vendor : Oid := ⟨[1, 3, 6, 1, 4, 1]⟩
  /-- The community that requests must carry, if any. -/
  community : Option String := none
  /-- The interfaces of ifTable, in row order. -/
  interfaces : List String := []
  /-- The mount points of dskTable, in row order. -/
  disks : List String := ["/"]
  /-- The refresh period in milliseconds. -/
  timeout : Nat := 1000
  deriving DecidableEq

namespace AgentConfig

/-- Whether a community has an acceptable length, counted in octets. -/
def communityFits (community : String) : Bool :=
  0 < community.utf8ByteSize ∧ community.utf8ByteSize ≤ maxCommunityLength

/-- Checks the limits of a usable configuration, in this order. -/
def validate (c : AgentConfig) : Except AgentError Unit := do
  if maxInterfaces < c.interfaces.length then
    throw (.config (.tooManyInterfaces c.interfaces.length))
  if maxDisks < c.disks.length then throw (.config (.tooManyDisks c.disks.length))
  if c.community.any (¬communityFits ·) then throw (.config .communityLength)
  if c.timeout = 0 then throw (.config .zeroTimeout)
  match c.vendor.validate with
  | .ok () => return ()
  | .error fault => throw (.config (.invalidVendor c.vendor fault))

/-- The refresh period of a usable configuration is some time. -/
theorem timeout_pos {c : AgentConfig} (h : c.validate = .ok ()) : 0 < c.timeout := by
  rcases Nat.eq_zero_or_pos c.timeout with h₀ | h₀
  · simp [validate, h₀, bind, Except.bind, throw, throwThe, MonadExceptOf.throw] at h
    (repeat' split at h) <;> cases h
  · exact h₀

end AgentConfig

end SnmpAgent
