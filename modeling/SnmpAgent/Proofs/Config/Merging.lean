import SnmpAgent.CommandLine
import SnmpAgent.Proofs.Config.Limits
import Mathlib.Tactic.SplitIfs

/-!
# Command line and configuration file

The configuration of the agent is the one that the configuration file amounts to,
or the standard one, with the interfaces of the command line if any are given.
The limits are checked before the interfaces are replaced: what comes out keeps
all of them but the one on interfaces, which nobody has checked again.

* `FileConfig.usable_of_agentConfig`: what a file amounts to keeps all limits;
* `CommandLine.agentConfig_merges`: what comes out, and when it keeps them.
-/

namespace SnmpAgent

variable {file : FileConfig} {own config : AgentConfig}

/-! ## Files -/

/-- A file that says nothing amounts to the standard configuration. -/
theorem FileConfig.agentConfig_empty : ({} : FileConfig).agentConfig = .ok {} := rfl

/-- What a file amounts to keeps all limits: it is checked at the end. -/
theorem FileConfig.usable_of_agentConfig (h : file.agentConfig = .ok own) : own.Usable := by
  have hchecked {vendor : Except AgentError Oid} {overlay : Oid → AgentConfig}
      (h : (do let oid ← vendor; (overlay oid).validate; return overlay oid) = .ok own) :
      own.Usable := by
    obtain ⟨oid, -, h⟩ := except_bind_eq_ok.1 h
    obtain ⟨_, hvalid, h⟩ := except_bind_eq_ok.1 h
    cases h
    exact AgentConfig.validate_eq_ok_iff.1 hvalid
  rw [agentConfig] at h
  split at h
  · exact hchecked h
  · split at h <;> exact hchecked h

/-! ## Merging -/

namespace CommandLine

/-- A configuration with the interfaces that are given, if any are, and else
    with its own. Empty names are left out. -/
def merged (c : CommandLine) (own : AgentConfig) : AgentConfig :=
  { own with
    interfaces := if c.interfaces = [] then own.interfaces else c.interfaces.filter (¬·.isEmpty) }

/-- The configuration of the agent is that of the file with the interfaces that
    are given. It fails as that of the file does. -/
theorem agentConfig_eq (c : CommandLine) (file : Option FileConfig) :
    c.agentConfig file = (file.getD {}).agentConfig.map c.merged := by
  rw [agentConfig]
  cases (file.getD {}).agentConfig with
  | error e => rfl
  | ok own =>
    change (if c.interfaces.isEmpty then pure own
      else pure { own with interfaces := c.interfaces.filter (¬·.isEmpty) }) =
        Except.ok (c.merged own)
    simp only [merged, List.isEmpty_iff]
    split_ifs <;> rfl

/-- A merged configuration keeps all limits if it has few interfaces. -/
theorem usable_merged_iff (h : own.Usable) (c : CommandLine) :
    (c.merged own).Usable ↔ (c.merged own).interfaces.length ≤ maxInterfaces :=
  ⟨AgentConfig.Usable.interfaces, fun hfew => ⟨hfew, h.disks, h.community, h.timeout, h.vendor⟩⟩

/-- A merged configuration has few interfaces unless too many are given. -/
theorem length_interfaces_merged_le_iff (h : own.Usable) (c : CommandLine) :
    (c.merged own).interfaces.length ≤ maxInterfaces ↔
      c.interfaces = [] ∨ (c.interfaces.filter (¬·.isEmpty)).length ≤ maxInterfaces := by
  by_cases hnone : c.interfaces = []
  · simp [merged, hnone, h.interfaces]
  · simp [merged, hnone]

/-- Just those configurations come out that are the one of the file, which keeps
    all limits, or the standard one without a file, but for the interfaces:
    those that are given, without empty names, if any are given. They keep all
    limits as well, unless too many interfaces are given. -/
theorem agentConfig_merges (c : CommandLine) (file : Option FileConfig) (config : AgentConfig) :
    c.agentConfig file = .ok config ↔
      ∃ own : AgentConfig, (file.getD {}).agentConfig = .ok own ∧ (file = none → own = {}) ∧
        own.validate = .ok () ∧ config = { own with interfaces := config.interfaces } ∧
        config.interfaces =
          (if c.interfaces = [] then own.interfaces else c.interfaces.filter (¬·.isEmpty)) ∧
        (config.validate = .ok () ↔
          c.interfaces = [] ∨ (c.interfaces.filter (¬·.isEmpty)).length ≤ maxInterfaces) ∧
        (config.validate ≠ .ok () →
          config.validate = .error (.config (.tooManyInterfaces config.interfaces.length))) := by
  rw [agentConfig_eq]
  constructor
  · intro h
    cases hown : (file.getD {}).agentConfig with
    | error e =>
      rw [hown] at h
      cases h
    | ok own =>
      rw [hown] at h
      cases h
      -- The file alone gives what can be used, so only the overlay can do harm.
      have husable := FileConfig.usable_of_agentConfig hown
      have hvalid : (c.merged own).validate = .ok () ↔
          (c.merged own).interfaces.length ≤ maxInterfaces :=
        AgentConfig.validate_eq_ok_iff.trans (usable_merged_iff husable c)
      refine ⟨own, rfl, ?_, AgentConfig.validate_eq_ok_iff.2 husable, rfl, rfl,
        hvalid.trans (length_interfaces_merged_le_iff husable c), fun hinvalid => ?_⟩
      · rintro rfl
        rw [Option.getD_none, FileConfig.agentConfig_empty] at hown
        cases hown
        rfl
      · exact AgentConfig.validate_of_tooMany (Nat.lt_of_not_le (mt hvalid.2 hinvalid))
  · rintro ⟨own, hown, -, -, hconfig, hinterfaces, -⟩
    have hmerged : c.merged own = config := by rw [hconfig, hinterfaces, merged]
    rw [hown, ← hmerged]
    rfl

/-- Two interfaces, one of them nameless, in place of that of a file. -/
theorem agentConfig_merges_override :
    agentConfig { interfaces := ["eth0", "", "eth1"] }
        (some { location := "Rack 4", ifaceTable := some ["lo"] }) =
      .ok { location := "Rack 4", interfaces := ["eth0", "eth1"] } ∧
    AgentConfig.validate { location := "Rack 4", interfaces := ["eth0", "eth1"] } = .ok () := by
  have hconfig : agentConfig { interfaces := ["eth0", "", "eth1"] }
        (some { location := "Rack 4", ifaceTable := some ["lo"] }) =
      .ok { location := "Rack 4", interfaces := ["eth0", "eth1"] } := rfl
  obtain ⟨own, -, -, -, -, -, hvalid, -⟩ := (agentConfig_merges _ _ _).1 hconfig
  exact ⟨hconfig, hvalid.2 (.inr (by decide))⟩

/-- Nine interfaces on the command line come out, though they are too many. -/
theorem agentConfig_nine :
    agentConfig { interfaces := ["a", "b", "c", "d", "e", "f", "g", "h", "i"] } none =
      .ok { interfaces := ["a", "b", "c", "d", "e", "f", "g", "h", "i"] } ∧
    AgentConfig.validate { interfaces := ["a", "b", "c", "d", "e", "f", "g", "h", "i"] } =
      .error (.config (.tooManyInterfaces 9)) :=
  ⟨rfl, rfl⟩

end CommandLine

end SnmpAgent
