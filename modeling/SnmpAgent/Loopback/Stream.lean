import SnmpAgent.Server

/-!
# Scripted streams

A script plays clients against a server, or against its table of clients,
without a network: everything that a client sends waits in its *stream* until
the server reads it. Streams belong to a *machine*, which may not let clients
open sockets at all; on such a machine a script breaks off at the first socket
that it needs.

* `Stream.transfer?`: what an attempt of the server to transfer octets comes to.
-/

namespace SnmpAgent

/-- What a machine lets the clients of a script do. -/
structure Machine where
  opensSockets : Bool
  deriving DecidableEq

/-- The state of the direction in which a client sends: more octets may follow,
    the stream ends behind those that wait, or it is reset. -/
inductive Sending where
  | ongoing
  | ended
  | reset
  deriving DecidableEq

/-- The stream of one client. -/
structure Stream where
  name : String
  peer : SocketAddr
  /-- The octets that wait to be read. -/
  waiting : List UInt8
  sending : Sending
  /-- Whether the client still holds its end. -/
  held : Bool
  deriving DecidableEq

namespace Stream

/-- The stream of a client that just connected. -/
def connected (name : String) (peer : SocketAddr) : Stream := ⟨name, peer, [], .ongoing, true⟩

/-- The stream after its client sent octets. -/
def send (s : Stream) (octets : List UInt8) : Stream := { s with waiting := s.waiting ++ octets }

/-- What the attempt to transfer octets from or to a client would come to, if it
    is ready for it. -/
def transfer? (s : Stream) (c : Client) : Option Transfer :=
  match s.sending, c.direction with
  | .reset, _ => some .failed
  | _, .writing => some .written
  | sending, .reading =>
    if ¬s.waiting.isEmpty then some (.read (s.waiting.take c.frame.spare))
    else if sending = .ended then some (.read [])
    else none

/-- A bound on the turns of a client with the stream: two for each octet, of
    which one is to write the reply that it completes, and one at the end. -/
def work (s : Stream) : Nat := 2 * s.waiting.length + 1

/-- The stream after a transfer. -/
def after (s : Stream) : Transfer → Stream
  | .read octets => { s with waiting := s.waiting.drop octets.length }
  | _ => s

end Stream

end SnmpAgent
