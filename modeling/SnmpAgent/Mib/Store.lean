import SnmpAgent.Error
import SnmpAgent.Mib.Definition
import SnmpAgent.Mib.Table

/-!
# The store of variables

The *store* is a table of variables, each with its value already encoded, so
that a reply copies it without encoding it again. A variable with a metric
behind it is encoded anew whenever it is refreshed.

* `MibStore.build`: the store of a list of definitions; the first variable
  that cannot be entered refuses the whole list;
* `MibStore.findAtOrBelow?`, `MibStore.findNext?`: the searches that requests
  are answered with;
* `MibStore.refresh`, `MibStore.refreshAll`: new figures for the metrics.
-/

namespace SnmpAgent

/-- The most variables of an agent, and the most varbinds of a reply. -/
def maxValues : Nat := 2048

/-- One variable. -/
structure Entry where
  tag : Tag
  /-- The whole encoded element of the value. -/
  encoded : List UInt8
  /-- The metric behind the value, if it changes. -/
  metric? : Option Metric
  deriving DecidableEq

namespace Entry

/-- The value that the encoded element denotes. -/
def value (e : Entry) : Except DecodeError Value :=
  match Value.read (Cursor.ofMessage e.encoded) with
  | .ok v _ => .ok v
  | .error e _ => .error e

/-- The variable with its value encoded anew, if it changes. -/
def refresh (e : Entry) (s : Snapshot) : Except EncodeError Entry :=
  match e.metric? with
  | none => .ok e
  | some m => do return { e with encoded := ← (m.sample s).tlv }

end Entry

/-- Whether variables can have values with a given tag. -/
def isStorable (tag : Tag) : Bool := (ValueType.ofTag? tag).any (¬·.isMarker)

/-- The variables of an agent. -/
structure MibStore where
  table : OidTable Entry

namespace MibStore

/-- Checks a cell against the declared tag and encodes its value. -/
def entry (tag : Tag) (s : Snapshot) (oid : Oid) (cell : Cell) : Except AgentError Entry := do
  if Oid.maxSubids < oid.length then
    throw (.mib (.oidOverflow oid.length Oid.maxSubids) oid)
  if ¬isStorable tag then throw (.mib (.unsupportedType tag) oid)
  let v := cell.value s
  if v.tag ≠ tag then throw (.mib (.typeMismatch tag v.tag) oid)
  match v.tlv with
  | .ok encoded => return ⟨tag, encoded, cell.metric?⟩
  | .error e => throw (.encode e)

/-- Enters one instance of a definition. -/
def enter (s : Snapshot) (table : OidTable Entry) (tag : Tag) (oid : Oid) (cell : Cell) :
    Except AgentError (OidTable Entry) := do
  let e ← entry tag s oid cell
  match table.push oid e with
  | .ok table => return table
  | .error fault => throw (.mib fault oid)

/-- All instances of some definitions with the tags that they must have. -/
def instances (definitions : List Definition) : List (Tag × Oid × Cell) :=
  definitions.flatMap fun d => d.instances.map fun (oid, cell) => (d.tag, oid, cell)

/-- The store of some definitions with room for `capacity` variables. -/
def build (definitions : List Definition) (s : Snapshot) (capacity : Nat) :
    Except AgentError MibStore := do
  let table ← (instances definitions).foldlM
    (fun table (tag, oid, cell) => enter s table tag oid cell) (OidTable.empty capacity)
  return ⟨table⟩

/-- The number of variables. -/
def length (m : MibStore) : Nat := m.table.length

/-- The variable at a position. -/
def get? (m : MibStore) (i : Nat) : Option (Oid × Entry) := m.table.get? i

/-- The position, from `start` on, where the variables at or beneath a name
    would begin. -/
def candidate (m : MibStore) (oid : Oid) (start : Nat) : Nat := max start (m.table.lowerBound oid)

/-- The position of the first variable, from `start` on, whose name is `oid` or
    lies beneath it. -/
def findAtOrBelow? (m : MibStore) (oid : Oid) (start : Nat) : Option Nat :=
  let i := m.candidate oid start
  if (m.get? i).any (·.1.startsWith oid) then some i else none

/-- The position of the first variable above a name. -/
def findNext? (m : MibStore) (oid : Oid) : Option Nat :=
  let i := m.table.upperBound oid
  if i < m.length then some i else none

/-- Refreshes the variable at a position. -/
def refresh (m : MibStore) (i : Nat) (s : Snapshot) : Except EncodeError MibStore :=
  match m.get? i with
  | none => .ok m
  | some (_, e) => do return ⟨m.table.set i (← e.refresh s)⟩

/-- Refreshes the variables from position `i` on, `count` of them, up to the
    first one that cannot be encoded. -/
def refreshFrom (s : Snapshot) (i : Nat) :
    (count : Nat) → MibStore → MibStore × Except EncodeError Unit
  | 0, m => (m, .ok ())
  | count + 1, m =>
    match m.refresh i s with
    | .ok m => refreshFrom s (i + 1) count m
    | .error e => (m, .error e)

/-- Refreshes all variables, up to the first one that cannot be encoded. -/
def refreshAll (m : MibStore) (s : Snapshot) : MibStore × Except EncodeError Unit :=
  refreshFrom s 0 m.length m

end MibStore

end SnmpAgent
