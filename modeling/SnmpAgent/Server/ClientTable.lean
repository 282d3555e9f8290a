import SnmpAgent.Server.Client

/-!
# The table of clients

The server holds a limited number of clients in the order in which they
connected. When there is no room for another one, the client that was longest
without a transfer makes place.

Clients are served in turn: the search for one that is ready begins behind the
one that was served last, so a busy client does not keep the others waiting.

* `ClientTable.insert`: a new client, and the one that made place for it;
* `ClientTable.reap`: the table without closed clients;
* `ClientTable.ready?`: the position of the client to be served.
-/

namespace SnmpAgent

/-- The most clients at a time. -/
def maxClients : Nat := 16

/-- Whether `c` makes place rather than `d`: a closed client before an open one,
    else the one without a transfer for longer. -/
def Client.yieldsBefore (c d : Client) : Bool :=
  (c.closed && !d.closed) || (c.closed == d.closed && decide (c.lastActivity < d.lastActivity))

/-- The clients of the server. -/
structure ClientTable where
  /-- The clients, in the order in which they connected. -/
  clients : List Client
  capacity : Nat
  /-- The position at which the search for a client to be served begins. -/
  next : Nat
  deriving DecidableEq

namespace ClientTable

/-- The table without clients. -/
def empty (capacity : Nat) : ClientTable := ⟨[], capacity, 0⟩

/-- The number of clients. -/
def length (t : ClientTable) : Nat := t.clients.length

/-- The client at a position. -/
def get? (t : ClientTable) (i : Nat) : Option Client := t.clients[i]?

/-- Replaces the client at a position. -/
def set (t : ClientTable) (i : Nat) (c : Client) : ClientTable :=
  { t with clients := t.clients.set i c }

/-- The first of some clients before which no other makes place. -/
def leastActive? : List Client → Option Client
  | [] => none
  | c :: cs => some (cs.foldl (fun least d => if d.yieldsBefore least then d else least) c)

/-- The client that makes place for a new one, if one has to. -/
def evicted? (t : ClientTable) : Option Client :=
  if t.capacity ≤ t.length then leastActive? t.clients else none

/-- The clients that stay when a new one comes. -/
def staying (t : ClientTable) : List Client :=
  match t.evicted? with
  | some c => t.clients.erase c
  | none => t.clients

/-- The table with a new client, if it can hold clients at all. -/
def insert (t : ClientTable) (c : Client) : ClientTable :=
  { t with clients := if t.capacity = 0 then t.staying else t.staying ++ [c] }

/-- The clients that are done with. -/
def leaving (t : ClientTable) : List Client := t.clients.filter (·.closed)

/-- The table without the clients that are done with. -/
def reap (t : ClientTable) : ClientTable :=
  let clients := t.clients.filter (!·.closed)
  { t with clients, next := if t.next < clients.length then t.next else 0 }

/-- All positions, in the order in which they are searched. -/
def order (t : ClientTable) : List Nat :=
  (List.range t.length).map fun k => (t.next + k) % t.length

/-- The position of the client to be served: the first open one that is ready. -/
def ready? (t : ClientTable) (isReady : Client → Bool) : Option Nat :=
  t.order.find? fun i => (t.get? i).any fun c => !c.closed && isReady c

/-- The table after the client at a position was chosen to be served. -/
def served (t : ClientTable) (i : Nat) : ClientTable := { t with next := (i + 1) % t.length }

end ClientTable

end SnmpAgent
