import SnmpAgent.Config.Agent
import SnmpAgent.Proofs.Steps

/-!
# Limits of a configuration

A configuration can be used if its lists are short, its community has an
acceptable length, it is refreshed after some time and its vendor has a valid
name. The check finds exactly these (`validate_eq_ok_iff`), and finds the number
of interfaces first.
-/

namespace SnmpAgent.AgentConfig

variable {c : AgentConfig}

/-- A configuration keeps all limits. -/
structure Usable (c : AgentConfig) : Prop where
  interfaces : c.interfaces.length ≤ maxInterfaces
  disks : c.disks.length ≤ maxDisks
  community : ∀ community ∈ c.community, communityFits community
  timeout : 0 < c.timeout
  vendor : c.vendor.validate = .ok ()

/-- The check lets through exactly what keeps all limits. -/
theorem validate_eq_ok_iff : c.validate = .ok () ↔ c.Usable := by
  have hcommunity : ¬c.community.any (¬communityFits ·) ↔
      ∀ community ∈ c.community, communityFits community := by
    cases c.community <;> simp
  rw [validate, guard_eq_ok, guard_eq_ok, guard_eq_ok, guard_eq_ok, Nat.not_lt, Nat.not_lt,
    hcommunity, ← ne_eq, ← Nat.pos_iff_ne_zero]
  constructor
  · rintro ⟨hinterfaces, hdisks, hcommunity, htimeout, hvendor⟩
    refine ⟨hinterfaces, hdisks, hcommunity, htimeout, ?_⟩
    split at hvendor
    · assumption
    · cases hvendor
  · rintro ⟨hinterfaces, hdisks, hcommunity, htimeout, hvendor⟩
    refine ⟨hinterfaces, hdisks, hcommunity, htimeout, ?_⟩
    rw [hvendor]
    rfl

/-- Too many interfaces are reported before anything else. -/
theorem validate_of_tooMany (h : maxInterfaces < c.interfaces.length) :
    c.validate = .error (.config (.tooManyInterfaces c.interfaces.length)) := by
  rw [validate, if_pos h]
  rfl

end SnmpAgent.AgentConfig
