import SnmpAgent.Error
import SnmpAgent.Frame

/-!
# Clients

A *client* is a peer with a stream. It is read from until its octets are a
whole request; then the reply takes their place in the same space, and the
client is written to until it has the reply. A client is never read from and
written to at the same time, and once it is closed nothing happens to it any
more.

Instants are milliseconds of a clock that the caller reads.

* `Client.receive`: octets of the stream were read;
* `Client.answer`: a request was answered, or not;
* `Client.sent`: the reply was written.
-/

namespace SnmpAgent

/-- What a client is waited for: octets of a request, or room for a reply. -/
inductive Direction where
  | reading
  | writing
  deriving DecidableEq

/-- A peer with a stream. -/
structure Client where
  peer : SocketAddr
  /-- The octets that were received, or the reply to be sent. -/
  frame : FrameBuffer
  direction : Direction
  /-- The instant of the last transfer. -/
  lastActivity : Nat
  /-- Whether the client is done with. -/
  closed : Bool
  deriving DecidableEq

namespace Client

/-- A client whose connection was just accepted. -/
def accepted (peer : SocketAddr) (now : Nat) : Client :=
  ⟨peer, FrameBuffer.empty, .reading, now, false⟩

/-- The client, done with. -/
def close (c : Client) : Client := { c with closed := true }

/-- The client after octets of its stream were read, and the request that they
    complete, if they do. A stream that cannot be a request closes the client. -/
def receive (c : Client) (now : Nat) (octets : List UInt8) : Client × Option (List UInt8) :=
  let c := { c with frame := c.frame.extend octets, lastActivity := now }
  match c.frame.status with
  | .ok .incomplete => (c, none)
  | .ok .complete => ({ c with frame := c.frame.clear }, some c.frame.filled)
  | .error _ => (c.close, none)

/-- The client after its request was processed: it is sent the reply, or closed
    if there is none. -/
def answer (c : Client) : Except AgentError (Option (List UInt8)) → Client
  | .ok (some reply) =>
    match c.frame.stage? reply with
    | some frame => { c with frame, direction := .writing }
    | none => c.close
  | .ok none | .error _ => c.close

/-- The client after the whole reply was written. -/
def sent (c : Client) (now : Nat) : Client :=
  { c with frame := c.frame.clear, direction := .reading, lastActivity := now }

end Client

end SnmpAgent
