import SnmpAgent.Config.Agent

/-!
# The refresh timer

The figures of the host are refreshed once in every period. The server is told
when its timer ticks; who runs the server keeps the timer. A tick that comes on
time is followed by the next one a period after it was due; one that comes
late, by more than a tolerance, by the next one a period after it came, so
ticks that were missed are not made up for.
-/

namespace SnmpAgent

/-- The delay, in milliseconds, up to which a tick is on time. -/
def Timer.tolerance : Nat := 5

/-- A timer that ticks once in every period. -/
structure Timer where
  /-- The period in milliseconds. -/
  period : Nat
  period_pos : 0 < period
  /-- The instant of the next tick. -/
  due : Nat
  deriving DecidableEq

namespace Timer

/-- The timer of a configuration. It ticks at once. -/
def ofConfig (config : AgentConfig) (now : Nat) : Except AgentError Timer :=
  match h : config.validate with
  | .error e => .error e
  | .ok () => .ok ⟨config.timeout, AgentConfig.timeout_pos h, now⟩

/-- Whether there is a tick. -/
def isDue (t : Timer) (now : Nat) : Bool := t.due ≤ now

/-- The timer after a tick. -/
def tick (t : Timer) (now : Nat) : Timer :=
  { t with due := if t.due + tolerance < now then now + t.period else t.due + t.period }

/-- The timer that next ticks after a whole period. -/
def reset (t : Timer) (now : Nat) : Timer := { t with due := now + t.period }

/-- A tick puts off the next one. -/
theorem due_lt_due_tick (t : Timer) (now : Nat) : t.due < (t.tick now).due := by
  have := t.period_pos
  simp only [tick]
  split <;> omega

end Timer

end SnmpAgent
