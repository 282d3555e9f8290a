import SnmpAgent.Config.Agent
import SnmpAgent.Host.Files
import SnmpAgent.Text.Json

/-!
# The configuration file

The configuration file is a JSON object with some of nine keys, none of them
twice; the array of the nine values in the order of the keys says the same. A
key that is missing or null leaves what is standard.

* `FileConfig.parse`: what a file says;
* `FileConfig.load`: what the file at a path says; a file that does not exist
  says nothing;
* `FileConfig.agentConfig`: the configuration that a file amounts to.
-/

namespace SnmpAgent

/-- What a configuration file says. -/
structure FileConfig where
  location : Option String := none
  contact : Option String := none
  description : Option String := none
  /-- Whether the community is asked for; it is unless this is false. -/
  authentication : Option Bool := none
  community : Option String := none
  /-- The refresh period in seconds. -/
  timeout : Option Nat := none
  /-- The dotted name of sysObjectID. -/
  vendor : Option String := none
  /-- The mount points of dskTable. -/
  diskTable : Option (List String) := none
  /-- The interfaces of ifTable. -/
  ifaceTable : Option (List String) := none
  deriving DecidableEq

namespace FileConfig

/-- The keys of a file, in the order in which an array lists their values. -/
def keys : List String :=
  ["location", "contact", "description", "authentication", "community", "timeout", "vendor",
    "disk-table", "iface-table"]

/-- A value that may be null; `none` is a value of the wrong type. -/
def optional {α : Type} (read : JsonValue → Option α) : JsonValue → Option (Option α)
  | .null => some none
  | v => (read v).map some

/-- A string. -/
def string? : JsonValue → Option String
  | .string text => some (String.ofList text)
  | _ => none

/-- A literal true or false. -/
def bool? : JsonValue → Option Bool
  | .bool b => some b
  | _ => none

/-- A number of 64 bits. -/
def natural? : JsonValue → Option Nat
  | .number (some n) => if n < 1 <<< 64 then some n else none
  | _ => none

/-- An array of strings. -/
def strings? : JsonValue → Option (List String)
  | .array items => items.mapM string?
  | _ => none

/-- What the values of the keys say. -/
def ofValues (value : String → JsonValue) : Option FileConfig := do
  return {
    location := ← optional string? (value "location")
    contact := ← optional string? (value "contact")
    description := ← optional string? (value "description")
    authentication := ← optional bool? (value "authentication")
    community := ← optional string? (value "community")
    timeout := ← optional natural? (value "timeout")
    vendor := ← optional string? (value "vendor")
    diskTable := ← optional strings? (value "disk-table")
    ifaceTable := ← optional strings? (value "iface-table") }

/-- The value of a key among members; a missing one is null. -/
def valueOf (members : List (String × JsonValue)) (key : String) : JsonValue :=
  ((members.find? (·.1 = key)).map (·.2)).getD .null

/-- What a JSON value says. -/
def ofJson : JsonValue → Option FileConfig
  | .object members =>
    let members := members.map fun (key, v) => (String.ofList key, v)
    let names := members.map (·.1)
    if names.all keys.contains ∧ names.Nodup then ofValues (valueOf members) else none
  | .array items =>
    if items.length = keys.length then ofValues (valueOf (keys.zip items)) else none
  | _ => none

/-- What a file with a given text says. -/
def parse (text : String) : Except AgentError FileConfig :=
  match (JsonValue.parse? text.toList).bind ofJson with
  | some file => .ok file
  | none => .error (.config .malformed)

/-- What the file at a path says, if there is one. -/
def load (f : Files) (path : String) : Except AgentError (Option FileConfig) :=
  match f.text path with
  | .ok text => (parse text).map some
  | .error reason =>
    if reason = .system ErrorNumber.notFound then .ok none
    else .error (.config (.unreadable path reason.message))

/-- The configuration that a file amounts to, where it can be used. -/
def agentConfig (file : FileConfig) : Except AgentError AgentConfig := do
  let standard : AgentConfig := {}
  let vendor ← match file.vendor with
    | none => pure standard.vendor
    | some text =>
      match Oid.parse text with
      | .ok oid => pure oid
      | .error fault => throw (.invalidOid fault)
  let config : AgentConfig := {
    description := file.description.getD standard.description
    contact := file.contact.getD standard.contact
    location := file.location.getD standard.location
    vendor
    community := if file.authentication.getD true then file.community else none
    interfaces := file.ifaceTable.getD standard.interfaces
    disks := file.diskTable.getD standard.disks
    timeout := (file.timeout.map (· * 1000)).getD standard.timeout }
  config.validate
  return config

end FileConfig

end SnmpAgent
