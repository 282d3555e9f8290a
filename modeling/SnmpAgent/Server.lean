import SnmpAgent.Engine
import SnmpAgent.Mib.Standard
import SnmpAgent.Server.ClientTable

/-!
# The server

The *server* is the agent with its clients. It handles one event after
another: a tick of the refresh timer, a datagram, a new connection, or a
transfer between it and one client. What it does to the network in return are
*effects*. The server does no input or output itself: what waits to be handled,
ticks of its timer included, and what time it is, it is told.

* `Server.bind`: the server of a configuration;
* `Server.choose`: which of the waiting events is handled first;
* `Server.step`: what an event does to the server, and its effects.
-/

namespace SnmpAgent

/-- What came of the attempt to transfer octets from or to a client. No octets
    are read at the end of the stream; a transfer fails if the stream is broken
    or takes only a part of the reply. -/
inductive Transfer where
  | read (octets : List UInt8)
  | written
  | pending
  | failed
  deriving DecidableEq

/-- What the server handles. -/
inductive Event where
  | tick
  | datagram (packet : List UInt8) (peer : SocketAddr)
  | connection (peer : SocketAddr)
  | service (i : Nat) (transfer : Transfer)
  deriving DecidableEq

/-- What the server does to the network. A client is sent a whole reply or
    none. -/
inductive Effect where
  | datagram (reply : List UInt8) (peer : SocketAddr)
  | reply (octets : List UInt8) (peer : SocketAddr)
  | disconnect (peer : SocketAddr)
  deriving DecidableEq

/-- What waits to be handled. -/
structure Waiting where
  /-- Whether the refresh timer ticks. -/
  tick : Bool
  /-- A packet, with its sender. -/
  datagram? : Option (List UInt8 × SocketAddr)
  connection? : Option SocketAddr
  /-- What an attempt to transfer octets from or to a client would come to, if
      the client is ready for it. -/
  transfer? : Client → Option Transfer

/-- The agent with its clients. -/
structure Server where
  config : AgentConfig
  store : MibStore
  clients : ClientTable
  /-- How often the host was sampled. -/
  samples : Nat

namespace Server

/-- The server of a configuration. It samples the host once. -/
def bind (config : AgentConfig) (host : Host) : Except AgentError Server := do
  config.validate
  let s := host 0 config.interfaces config.disks
  let store ← MibStore.build (standardDefinitions config s) s maxValues
  return { config, store, clients := ClientTable.empty maxClients, samples := 1 }

/-- The event that is handled first: a tick, then a datagram, then a connection,
    then the client whose turn it is. -/
def choose (s : Server) (w : Waiting) : Option Event :=
  if w.tick then some .tick
  else
    match w.datagram?, w.connection? with
    | some (packet, peer), _ => some (.datagram packet peer)
    | none, some peer => some (.connection peer)
    | none, none => do
      let i ← s.clients.ready? fun c => (w.transfer? c).isSome
      return .service i (← w.transfer? (← s.clients.get? i))

/-- Refreshes all variables from a new snapshot. -/
def refresh (s : Server) (host : Host) : Server :=
  let snapshot := host s.samples s.config.interfaces s.config.disks
  { s with store := (s.store.refreshAll snapshot).1, samples := s.samples + 1 }

/-- The server after it processed a packet, and what came of the packet. -/
def process (s : Server) (host : Host) (packet : List UInt8) (peer : SocketAddr) :
    Server × Except AgentError (Option (List UInt8)) :=
  let o := Engine.process s.config (fun turn => host (s.samples + turn)) s.store packet peer
  ({ s with store := o.store, samples := s.samples + o.samples }, o.result)

/-- Handles a datagram; one that is longer than a packet may be is dropped. -/
def handleDatagram (s : Server) (host : Host) (packet : List UInt8) (peer : SocketAddr) :
    Server × List Effect :=
  if maxPacketSize < packet.length then (s, [])
  else
    match s.process host packet peer with
    | (s, .ok (some reply)) => (s, [.datagram reply peer])
    | (s, _) => (s, [])

/-- Takes in a new client, for which another one may have to make place. -/
def accept (s : Server) (now : Nat) (peer : SocketAddr) : Server × List Effect :=
  ({ s with clients := s.clients.insert (Client.accepted peer now) },
    s.clients.evicted?.toList.map (.disconnect ·.peer))

/-- Replaces the client at a position. -/
def setClient (s : Server) (i : Nat) (c : Client) : Server :=
  { s with clients := s.clients.set i c }

/-- Handles octets that were read from the client `c` at a position. -/
def receive (s : Server) (host : Host) (now i : Nat) (c : Client) (octets : List UInt8) : Server :=
  match c.receive now octets with
  | (c, none) => s.setClient i c
  | (c, some request) =>
    let (s, result) := s.process host request c.peer
    s.setClient i (c.answer result)

/-- Handles a transfer with the client `c` at a position. The end of the stream,
    a failure, and anything that the client is not waited for close it. -/
def transfer (s : Server) (host : Host) (now i : Nat) (c : Client) (t : Transfer) :
    Server × List Effect :=
  match c.direction, t with
  | .reading, .read octets =>
    if octets.isEmpty ∨ c.frame.isFull then (s.setClient i c.close, [])
    else (s.receive host now i c octets, [])
  | .writing, .written => (s.setClient i (c.sent now), [.reply c.frame.filled c.peer])
  | _, .pending => (s, [])
  | _, _ => (s.setClient i c.close, [])

/-- Serves the client at a position. -/
def serve (s : Server) (host : Host) (now i : Nat) (t : Transfer) : Server × List Effect :=
  match s.clients.get? i with
  | none => (s, [])
  | some c => { s with clients := s.clients.served i }.transfer host now i c t

/-- Handles an event. -/
def handle (s : Server) (host : Host) (now : Nat) : Event → Server × List Effect
  | .tick => (s.refresh host, [])
  | .datagram packet peer => s.handleDatagram host packet peer
  | .connection peer => s.accept now peer
  | .service i t => s.serve host now i t

/-- Disconnects the clients that are done with. -/
def reap (s : Server) : Server × List Effect :=
  ({ s with clients := s.clients.reap }, s.clients.leaving.map (.disconnect ·.peer))

/-- Handles an event and then disconnects the clients that are done with. -/
def step (s : Server) (host : Host) (now : Nat) (e : Event) : Server × List Effect :=
  let (s, effects) := s.handle host now e
  let (s, disconnects) := s.reap
  (s, effects ++ disconnects)

end Server

end SnmpAgent
