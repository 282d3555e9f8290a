import SnmpAgent.Config.Agent
import SnmpAgent.Engine.Lookup

/-!
# Answering requests

The *engine* turns one received packet into at most one reply. A packet that
is no message, or carries the wrong community, is an error; requests that the
agent does not answer are met with silence.

* `Engine.get`, `Engine.getNext`: one binding for each name. A name without a
  variable fails a request of the first version and is answered with a marker
  in the second;
* `Engine.getBulk`: the successors of some names once, and those of the others
  again and again, row by row;
* `Engine.process`: the outcome of a packet, with what it did to the store.
-/

namespace SnmpAgent

/-- What came of a packet. -/
structure Outcome where
  /-- The reply, silence, or an error. -/
  result : Except AgentError (Option (List UInt8))
  store : MibStore
  /-- How often the host was sampled. -/
  samples : Nat

/-- One of the names of a bulk request that are followed up. -/
structure Slot where
  /-- The last name that was reached. -/
  oid : Oid
  /-- Whether there is no further variable. -/
  exhausted : Bool
  deriving DecidableEq

namespace Engine

/-- One binding for each name, found by `find`. A name without a variable is
    answered with the marker `missing`; where there is none, it ends the search,
    and its position is the answer. -/
def collect (find : Oid → Answering (Option Binding)) (missing : Option ValueType) :
    (position : Nat) → List Oid → Answering (Except Nat (List Binding))
  | _, [] => return .ok []
  | position, oid :: oids => do
    match ← find oid, missing with
    | none, none => return .error position
    | none, some type =>
      return (← collect find missing (position + 1) oids).map (Binding.marker oid type :: ·)
    | some b, _ => return (← collect find missing (position + 1) oids).map (b :: ·)

/-- The reply to a request for one binding for each name. -/
def reply (p : Pdu) : Except Nat (List Binding) → Response
  | .ok bindings => Response.success p.requestId bindings
  | .error position => Response.failure p .noSuchName position

/-- The names in a PDU. -/
def names (p : Pdu) : List Oid := p.varbinds.map (·.oid)

/-- The marker for a name without a variable; the first version has no markers. -/
def missing (version : Version) (type : ValueType) : Option ValueType :=
  match version with
  | .v1 => none
  | .v2c => some type

/-- The reply to a request for the named variables. -/
def get (source : Nat → Snapshot) (p : Pdu) (version : Version) : Answering Response := do
  return reply p (← collect (Lookup.exact source) (missing version .noSuchObject) 1 (names p))

/-- The reply to a request for the variables after the named ones. -/
def getNext (source : Nat → Snapshot) (p : Pdu) (version : Version) : Answering Response := do
  return reply p (← collect (Lookup.next source) (missing version .endOfMibView) 1 (names p))

/-- Follows up one name: the binding to answer with, and where it led. -/
def advance (source : Nat → Snapshot) (slot : Slot) : Answering (Binding × Slot) := do
  if slot.exhausted then return (Binding.marker slot.oid .endOfMibView, slot)
  else
    match ← Lookup.next source slot.oid with
    | some b => return (b, ⟨b.oid, false⟩)
    | none => return (Binding.marker slot.oid .endOfMibView, ⟨slot.oid, true⟩)

/-- Follows up names row by row, until there are `room` bindings. -/
def rows (source : Nat → Snapshot) :
    (repetitions room : Nat) → List Slot → Answering (List Binding)
  | 0, _, _ => return []
  | repetitions + 1, room, slots => do
    if slots.isEmpty ∨ room = 0 then return []
    else
      let row ← (slots.take room).mapM (advance source)
      let others ← rows source repetitions (room - row.length) (row.map (·.2))
      return row.map (·.1) ++ others

/-- The reply to a bulk request. -/
def getBulk (source : Nat → Snapshot) (p : Pdu) : Answering Response := do
  let slots := (names p).map (Slot.mk · false)
  let single ← ((slots.take p.nonRepeaters).take maxValues).mapM (advance source)
  let repeated ←
    rows source p.maxRepetitions (maxValues - single.length) (slots.drop p.nonRepeaters)
  return Response.success p.requestId (single.map (·.1) ++ repeated)

/-- The reply to a request to change variables, which is always refused. -/
def refuseSet (p : Pdu) (version : Version) : Response :=
  let status := match version with
    | .v1 => .noSuchName
    | .v2c => .notWritable
  Response.failure p status (if p.varbinds.isEmpty then 0 else 1)

/-- The octets of a reply of ordinary size. -/
def finish (request : Message) (r : Response) : Answering (Option (List UInt8)) :=
  match r.encode request maxPacketSize with
  | .ok octets => return some octets
  | .error e => throw (.encode e)

/-- The octets of a bulk reply, cut to ordinary size. -/
def finishBulk (request : Message) (r : Response) : Answering (Option (List UInt8)) :=
  match r.encodeFitting request maxPacketSize with
  | .ok octets => return some octets
  | .error e => throw (.encode e)

/-- The octets that answer a request, or silence. -/
def answer (source : Nat → Snapshot) (request : Message) : Answering (Option (List UInt8)) := do
  let p := request.pdu
  match p.type, request.version with
  | .getRequest, version => finish request (← get source p version)
  | .getNextRequest, version => finish request (← getNext source p version)
  | .getBulkRequest, .v2c => finishBulk request (← getBulk source p)
  | .setRequest, version => finish request (refuseSet p version)
  | _, _ => return none

/-- Whether a request carries the community that the configuration asks for. -/
def admits (config : AgentConfig) (request : Message) : Bool :=
  config.community.all fun community => community.toUTF8.toList = request.community

/-- What comes of a packet from a peer. -/
def process (config : AgentConfig) (host : Host) (store : MibStore) (packet : List UInt8)
    (peer : SocketAddr) : Outcome :=
  match Message.decode packet maxRequestVarbinds with
  | .error e => ⟨.error (.decode e), store, 0⟩
  | .ok request =>
    if admits config request then
      let source := fun turn => host turn config.interfaces config.disks
      match answer source request (Lookup.start store) with
      | .ok reply? l => ⟨.ok reply?, l.store, l.samples⟩
      | .error e l => ⟨.error e, l.store, l.samples⟩
    else ⟨.error (.invalidCommunity (some peer)), store, 0⟩

end Engine

end SnmpAgent
