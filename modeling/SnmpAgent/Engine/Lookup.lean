import SnmpAgent.Engine.Response
import SnmpAgent.Mib.Store

/-!
# Looking up variables

While a request is answered, variables are looked up in the store. A variable
with a metric behind it is refreshed before it is answered with. For this the
host is sampled once, when the first such variable is answered with, and all
others are refreshed from the same snapshot.

* `Lookup.exact`: the variable of a name, or the only one beneath it;
* `Lookup.next`: the first variable above a name.
-/

namespace SnmpAgent

/-- What a request has come to while it is answered. -/
structure Lookup where
  store : MibStore
  /-- The snapshot that the request is answered from, once there is one. -/
  snapshot? : Option Snapshot
  /-- How often the host was sampled. -/
  samples : Nat

/-- A computation that looks up variables and may fail. -/
abbrev Answering := EStateM AgentError Lookup

namespace Lookup

/-- The state in which a request begins. -/
def start (store : MibStore) : Lookup := ⟨store, none, 0⟩

/-- The snapshot that the request is answered from. `source` says what each
    sampling gives. -/
def sample (source : Nat → Snapshot) : Answering Snapshot := do
  let l ← get
  match l.snapshot? with
  | some s => return s
  | none =>
    let s := source l.samples
    set { l with snapshot? := some s, samples := l.samples + 1 }
    return s

/-- Refreshes the variable at a position. -/
def refresh (i : Nat) (s : Snapshot) : Answering Unit := do
  let l ← get
  match l.store.refresh i s with
  | .ok store => set { l with store }
  | .error e => throw (.encode e)

/-- The variable at a position, as of now. -/
def binding (source : Nat → Snapshot) (i : Nat) : Answering (Option Binding) := do
  if ((← get).store.get? i).any (·.2.metric?.isSome) then
    refresh i (← sample source)
  return ((← get).store.get? i).map fun (oid, e) => ⟨oid, e.encoded⟩

/-- The variable of a name, or the only one beneath it. -/
def exact (source : Nat → Snapshot) (oid : Oid) : Answering (Option Binding) := do
  let store := (← get).store
  match store.findAtOrBelow? oid 0 with
  | none => return none
  | some i =>
    if (store.get? i).any (·.1 = oid) then binding source i
    else if (store.findAtOrBelow? oid (i + 1)).isSome then return none
    else binding source i

/-- The first variable above a name. -/
def next (source : Nat → Snapshot) (oid : Oid) : Answering (Option Binding) := do
  match (← get).store.findNext? oid with
  | none => return none
  | some i => binding source i

end Lookup

end SnmpAgent
