import SnmpAgent.Loopback.Stream
import SnmpAgent.Server.Timer

/-!
# Scripts for a whole server

A script plays clients against a server on a clock of its own. After each
*action* the server runs until nothing is left to be handled, so every action
is dealt with before the next one. The clock only moves when the script
advances it.

* `Loopback.settle`: the server runs until nothing is left to be handled;
* `Loopback.perform`: one action, and a report of what it led to;
* `Loopback.session`: a whole script.
-/

namespace SnmpAgent

/-- A server with the clients of a script. -/
structure Loopback where
  machine : Machine
  host : Host
  server : Server
  timer : Timer
  /-- The time in milliseconds. -/
  now : Nat := 0
  /-- Whether the server was told to stop. -/
  cancelled : Bool := false
  streams : List Stream := []
  /-- The connections that wait to be accepted. -/
  connecting : List SocketAddr := []
  /-- The packets that wait to be received. -/
  datagrams : List (List UInt8 × SocketAddr) := []
  /-- The number of sockets that were opened. -/
  opened : Nat := 0

namespace Loopback

/-- What a client notices of the server. -/
inductive Notice where
  | datagram (octets : List UInt8)
  | reply (name : String) (octets : List UInt8)
  | disconnect (name : String)
  deriving DecidableEq

/-- What a script does. With `sendEnd` a client also ends its sending direction,
    and with `advance` the clock is moved piece by piece. -/
inductive Action where
  | datagram (packet : List UInt8)
  | connect (name : String)
  | send (name : String) (octets : List UInt8)
  | sendEnd (name : String) (octets : List UInt8)
  | close (name : String)
  | abort (name : String)
  | advance (pieces : List Nat)
  | figures (figures : Snapshot)
  | lookup (oid : Oid)
  | cancel

/-- What an action led to. -/
structure Report where
  /-- What the clients noticed. -/
  notices : List Notice
  /-- How often the host was sampled after each piece by which the clock was
      moved. -/
  ticks : List Nat
  /-- How often else the host was sampled. -/
  samples : Nat
  /-- The clients of the server: name, direction and last activity. -/
  connections : List (String × Direction × Nat)
  entry? : Option (Oid × Entry)
  finished : Bool
  /-- Whether the client that was to send is gone. -/
  missing : Bool

/-! ### The server runs -/

/-- The stream of a peer. -/
def stream? (l : Loopback) (peer : SocketAddr) : Option Stream :=
  l.streams.find? (·.peer = peer)

/-- What waits to be handled. -/
def waiting (l : Loopback) : Waiting where
  tick := l.timer.isDue l.now
  datagram? := l.datagrams.head?
  connection? := l.connecting.head?
  transfer? c := do (← l.stream? c.peer).transfer? c

/-- Takes out of the network what an event handles. -/
def take (l : Loopback) : Event → Loopback
  | .tick => { l with timer := l.timer.tick l.now }
  | .datagram .. => { l with datagrams := l.datagrams.tail }
  | .connection _ => { l with connecting := l.connecting.tail }
  | .service i t =>
    match l.server.clients.get? i with
    | none => l
    | some c =>
      { l with streams := l.streams.map fun s => if s.peer = c.peer then s.after t else s }

/-- Puts an effect of the server into the network. -/
def give (l : Loopback) : Effect → Loopback
  | .disconnect peer => { l with streams := l.streams.filter (·.peer ≠ peer) }
  | _ => l

/-- The name of the client that holds the stream of a peer. -/
def holder? (l : Loopback) (peer : SocketAddr) : Option String := do
  let s ← l.stream? peer
  if s.held then s.name else none

/-- What clients notice of an effect. -/
def notice? (l : Loopback) : Effect → Option Notice
  | .datagram reply _ => some (.datagram reply)
  | .reply octets peer => (l.holder? peer).map (.reply · octets)
  | .disconnect peer => (l.holder? peer).map .disconnect

/-- The server handles one event, if there is one. -/
def turn? (l : Loopback) : Option (Loopback × List Notice) :=
  if l.cancelled then none
  else
    (l.server.choose l.waiting).map fun e =>
      let (server, effects) := l.server.step l.host l.now e
      (effects.foldl give { l.take e with server }, effects.filterMap l.notice?)

/-- A bound on the events that can be handled: a tick in each instant until now,
    all packets and connections that wait, the turns of all streams, and one for
    each client that is written to. -/
def work (l : Loopback) : Nat :=
  (l.now + 1 - l.timer.due) + l.datagrams.length + l.connecting.length +
    l.streams.foldr (·.work + ·) 0 + l.server.clients.clients.countP (·.direction = .writing)

/-- The server handles at most `fuel` events. -/
def settleWithin : (fuel : Nat) → Loopback → Loopback × List Notice
  | 0, l => (l, [])
  | fuel + 1, l =>
    match l.turn? with
    | none => (l, [])
    | some (l, notices) =>
      let (l, others) := settleWithin fuel l
      (l, notices ++ others)

/-- The server runs until nothing is left to be handled. -/
def settle (l : Loopback) : Loopback × List Notice := settleWithin l.work l

/-! ### Clients act -/

/-- Opens a socket with an address of its own, if the machine lets clients do
    so. -/
def openSocket? (l : Loopback) : Option (SocketAddr × Loopback) :=
  if l.machine.opensSockets then
    let peer := .v4 ⟨127, 0, 0, 1⟩ (UInt16.ofNat (1024 + l.opened))
    some (peer, { l with opened := l.opened + 1 })
  else none

/-- Changes the stream that a client holds. -/
def changeStream (l : Loopback) (name : String) (change : Stream → Stream) : Loopback :=
  { l with streams := l.streams.map fun s => if s.held ∧ s.name = name then change s else s }

/-- A client lets go of its stream, which ends or is reset. -/
def letGo (l : Loopback) (name : String) (sending : Sending) : Loopback :=
  l.changeStream name fun s => { s with sending, held := false }

/-- What an action does to the network, unless it needs a socket that cannot be
    opened. -/
def act (l : Loopback) : Action → Option Loopback
  | .datagram packet => do
    let (peer, l) ← l.openSocket?
    return { l with datagrams := l.datagrams ++ [(packet, peer)] }
  | .connect name => do
    let (peer, l) ← l.openSocket?
    let l := l.letGo name .ended
    return { l with
      streams := l.streams ++ [Stream.connected name peer]
      connecting := l.connecting ++ [peer] }
  | .send name octets => some (l.changeStream name (·.send octets))
  | .sendEnd name octets =>
    some (l.changeStream name fun s => { s.send octets with sending := .ended })
  | .close name => some (l.letGo name .ended)
  | .abort name => some (l.letGo name .reset)
  | .figures figures => some { l with host := Host.static figures }
  | .cancel => some { l with cancelled := true }
  | .advance _ | .lookup _ => some l

/-- Moves the clock piece by piece. Tells how often the host was sampled after
    each piece. -/
def advance : List Nat → Loopback → Loopback × List Notice × List Nat
  | [], l => (l, [], [])
  | piece :: pieces, l =>
    let (after, notices) := { l with now := l.now + piece }.settle
    let (last, others, ticks) := advance pieces after
    (last, notices ++ others, (after.server.samples - l.server.samples) :: ticks)

/-- The pieces by which an action moves the clock. -/
def Action.pieces : Action → List Nat
  | .advance pieces => pieces
  | _ => []

/-- The client that is to send octets. -/
def Action.sender? : Action → Option String
  | .send name _ | .sendEnd name _ => some name
  | _ => none

/-- The variable that is looked up. -/
def entry? (l : Loopback) : Action → Option (Oid × Entry)
  | .lookup oid => do l.server.store.get? (← l.server.store.table.position? oid)
  | _ => none

/-- The clients of the server: name, direction and last activity. -/
def connections (l : Loopback) : List (String × Direction × Nat) :=
  l.server.clients.clients.map fun c =>
    (((l.stream? c.peer).map (·.name)).getD "", c.direction, c.lastActivity)

/-- One action, after which the server runs until nothing is left to be handled,
    unless the action needs a socket that cannot be opened. -/
def perform (l : Loopback) (a : Action) : Option (Loopback × Report) := do
  let acted ← l.act a
  let (settled, notices) := { acted with timer := acted.timer.reset acted.now }.settle
  let (after, others, ticks) := settled.advance a.pieces
  return (after, {
    notices := notices ++ others
    ticks
    samples := settled.server.samples - l.server.samples
    connections := after.connections
    entry? := after.entry? a
    finished := after.cancelled
    missing := a.sender?.any fun name => !l.streams.any fun s => s.held && s.name == name })

/-- A whole script, unless it needs a socket that cannot be opened. -/
def session (l : Loopback) : List Action → Option (List Report)
  | [] => some []
  | a :: actions => do
    let (l, report) ← l.perform a
    return report :: (← session l actions)

/-- A server whose host has given figures, before a script. -/
def start (machine : Machine) (config : AgentConfig) (figures : Snapshot) :
    Except AgentError Loopback := do
  let host := Host.static figures
  let server ← Server.bind config host
  return { machine, host, server, timer := ← Timer.ofConfig config 0 }

end Loopback

namespace Loopback.Report

/-- The packets that arrived. -/
def datagrams (r : Report) : List (List UInt8) :=
  r.notices.filterMap fun
    | .datagram octets => some octets
    | _ => none

/-- The octets that arrived on the stream of a client. -/
def receivedBy (r : Report) (name : String) : List UInt8 :=
  r.notices.flatMap fun
    | .reply n octets => if n = name then octets else []
    | _ => []

/-- The clients that octets arrived for, with these octets. -/
def received (r : Report) : List (String × List UInt8) :=
  let names := r.notices.filterMap fun
    | .reply name _ => some name
    | _ => none
  names.eraseDups.map fun name => (name, r.receivedBy name)

/-- The clients that were disconnected, in the order of their names. -/
def disconnected (r : Report) : List String :=
  (r.notices.filterMap fun
    | .disconnect name => some name
    | _ => none).mergeSort (· ≤ ·)

end Loopback.Report

end SnmpAgent
