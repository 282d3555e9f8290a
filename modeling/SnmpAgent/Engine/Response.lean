import SnmpAgent.Message

/-!
# Replies

A *reply* is assembled from bindings whose values are already encoded. It is
written as the message that answers a request, with the version and the
community of that request.

A bulk reply may be cut to a size limit. How many bindings are tried first is
estimated: the size of the reply without bindings, six octets by which the
three lengths around the bindings may grow, and the predicted sizes of the
bindings must fit. Should even that be too much, bindings are dropped one by
one.

* `Binding.encodedLength`: the size of a binding, predicted;
* `Response.encode`: the whole reply within a limit;
* `Response.encodeFitting`: the reply cut to a limit.
-/

namespace SnmpAgent

/-- A name with an encoded value. -/
structure Binding where
  oid : Oid
  /-- The whole encoded element of the value. -/
  value : List UInt8
  deriving DecidableEq

namespace Binding

/-- A name with the element of a marker: its tag and the length zero. -/
def marker (oid : Oid) (type : ValueType) : Binding := ⟨oid, [type.tag, 0]⟩

/-- The number of octets of an element whose content has `n` octets. -/
def elementLength (n : Nat) : Nat := 1 + Length.size n + n

/-- The number of octets of a binding in a list of varbinds. -/
def encodedLength (b : Binding) : Nat :=
  elementLength (elementLength b.oid.contentLength + b.value.length)

/-- Puts a binding in front of the buffer. -/
def write (b : Binding) : Writer := Writer.sequence do
  Writer.push b.value
  Writer.oid b.oid

end Binding

/-- A reply under construction. -/
structure Response where
  requestId : Int32
  errorStatus : ErrorStatus
  /-- The position at fault, counted from one, or zero. -/
  errorIndex : Int32
  bindings : List Binding
  deriving DecidableEq

namespace Response

/-- The reply to a request that went well. -/
def success (requestId : Int32) (bindings : List Binding) : Response :=
  ⟨requestId, .noError, 0, bindings⟩

/-- The reply to a request that failed: the names of the request, without
    values. -/
def failure (p : Pdu) (status : ErrorStatus) (index : Nat) : Response :=
  ⟨p.requestId, status, Int32.ofNat index, p.varbinds.map fun v => Binding.marker v.oid .null⟩

/-- Puts the message that answers a request in front of the buffer. -/
def write (r : Response) (request : Message) : Writer := Writer.sequence do
  Writer.constructed PduType.response.tag do
    Writer.sequence (Writer.inOrder Binding.write r.bindings)
    Writer.integer r.errorIndex
    Writer.integer r.errorStatus.code
    Writer.integer r.requestId
  Writer.octetString request.community
  Writer.integer request.version.code

/-- The octets of the message that answers a request, of which there may be at
    most `limit`. -/
def encode (r : Response) (request : Message) (limit : Option Nat) :
    Except EncodeError (List UInt8) :=
  (r.write request).run limit

/-- The reply with only its first `n` bindings. -/
def take (r : Response) (n : Nat) : Response := { r with bindings := r.bindings.take n }

/-- How many leading bindings fit into `budget` octets by their predicted
    sizes. -/
def countWithin (budget : Nat) : List Binding → Nat
  | [] => 0
  | b :: bs =>
    if b.encodedLength ≤ budget then countWithin (budget - b.encodedLength) bs + 1 else 0

/-- The reply with its first `n` bindings, or with fewer if there is no room for
    so many. -/
def encodeAtMost (r : Response) (request : Message) (limit : Nat) :
    (n : Nat) → Except EncodeError (List UInt8)
  | 0 => (r.take 0).encode request limit
  | n + 1 =>
    match (r.take (n + 1)).encode request limit with
    | .error (.bufferFull ..) => encodeAtMost r request limit n
    | result => result

/-- The reply with as many leading bindings as the estimate admits. -/
def encodeFitting (r : Response) (request : Message) (limit : Nat) :
    Except EncodeError (List UInt8) := do
  let envelope ← (r.take 0).encode request limit
  let budget := limit - (envelope.length + 6)
  encodeAtMost r request limit (countWithin budget r.bindings)

end Response

end SnmpAgent
