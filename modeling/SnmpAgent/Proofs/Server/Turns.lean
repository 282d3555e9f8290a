import SnmpAgent.Proofs.Server.Exchanges

/-!
# The turns of a client

The loop of the server serves one client at a time. All that ever happens to a
client from its connection on are the *turns* in which it is served, and each
of them follows the exchange with the client, whatever else the server does in
between.

* `Turn.outcome_eq`: what one turn makes of the server;
* `Served`: the client that some turns make of a client;
* `Served.follows`, `Served.written`: all turns follow the exchange, and write
  the replies in the order in which they were given;
* `Server.Becomes.exists_served`: each client of a server was accepted, and then
  served in turns;
* `Served.orderly`: what follows for every client.
-/

namespace SnmpAgent

/-! ## Choices -/

/-- The client that is chosen among the ready ones is open and ready. -/
theorem ClientTable.exists_of_ready? {t : ClientTable} {isReady : Client → Bool} {i : Nat}
    (h : t.ready? isReady = some i) :
    ∃ c, t.get? i = some c ∧ c.closed = false ∧ isReady c = true := by
  have hany := List.find?_some h
  cases hget : t.get? i with
  | none =>
    rw [hget] at hany
    cases hany
  | some c =>
    rw [hget] at hany
    exact ⟨c, rfl, by simpa using hany⟩

namespace Server

variable {s : Server} {host : Host} {now i : Nat} {c : Client}

/-- What waits may be handled, in any order: the timer ticks, or a packet has
    come, or a connection, or there is a client whose turn it is. What is proved
    of a server that handles any of these holds for every way of choosing among
    them. -/
inductive MayHandle (s : Server) (w : Waiting) : Event → Prop where
  | tick (h : w.tick = true) : MayHandle s w .tick
  | datagram {packet : List UInt8} {peer : SocketAddr} (h : w.datagram? = some (packet, peer)) :
      MayHandle s w (.datagram packet peer)
  | connection {peer : SocketAddr} (h : w.connection? = some peer) :
      MayHandle s w (.connection peer)
  | service {i : Nat} {c : Client} {t : Transfer}
      (hready : s.clients.ready? (fun c => (w.transfer? c).isSome) = some i)
      (hget : s.clients.get? i = some c) (ht : w.transfer? c = some t) :
      MayHandle s w (.service i t)

/-- The loop handles open clients only, and with what waits for them. -/
theorem MayHandle.exists_get? {w : Waiting} {t : Transfer} (h : s.MayHandle w (.service i t)) :
    ∃ c, s.clients.get? i = some c ∧ c.closed = false ∧ w.transfer? c = some t := by
  cases h with
  | service hready hget ht =>
    obtain ⟨d, hget', hopen, -⟩ := ClientTable.exists_of_ready? hready
    cases hget.symm.trans hget'
    exact ⟨_, hget, hopen, ht⟩

/-- The loop chooses one of the events that may be handled. -/
theorem mayHandle_of_choose {w : Waiting} {e : Event} (h : s.choose w = some e) :
    s.MayHandle w e := by
  rw [choose] at h
  split_ifs at h with htick
  · cases h
    exact .tick htick
  split at h
  · cases h
    exact .datagram ‹_›
  · cases h
    exact .connection ‹_›
  · obtain ⟨j, hready, h⟩ := Option.bind_eq_some_iff.1 h
    obtain ⟨c, hget, h⟩ := Option.bind_eq_some_iff.1 h
    obtain ⟨t, ht, h⟩ := Option.bind_eq_some_iff.1 h
    cases h
    exact .service hready hget ht

/-- It chooses none only if there is none. -/
theorem choose_eq_none_iff {w : Waiting} : s.choose w = none ↔ ∀ e, ¬s.MayHandle w e := by
  refine ⟨fun h e he => ?_, fun h => Option.eq_none_iff_forall_ne_some.2 fun e he =>
    h e (mayHandle_of_choose he)⟩
  rw [choose] at h
  split_ifs at h with htick
  split at h
  · cases h
  · cases h
  next hdatagram hconnection =>
    cases he with
    | tick htick' => exact htick htick'
    | datagram hdatagram' =>
      rw [hdatagram] at hdatagram'
      cases hdatagram'
    | connection hconnection' =>
      rw [hconnection] at hconnection'
      cases hconnection'
    | service hready hget ht =>
      simp [hready, hget, ht] at h

/-- The clients that an event leaves open stay, and all others are
    disconnected. -/
theorem mem_step_iff {e : Event} : c ∈ (s.step host now e).1.clients.clients ↔
    c ∈ (s.handle host now e).1.clients.clients ∧ c.closed = false := by
  change c ∈ (s.handle host now e).1.clients.clients.filter (!·.closed) ↔ _
  rw [List.mem_filter, Bool.not_eq_true']

end Server

/-- What is put at the position of a client is found there. -/
theorem ClientTable.get?_set {clients : ClientTable} {i : Nat} {c d : Client}
    (hget : clients.get? i = some c) : ((clients.served i).set i d).get? i = some d := by
  obtain ⟨hi, -⟩ := List.getElem?_eq_some_iff.1 hget
  exact List.getElem?_set_self hi

/-- When a new client comes, all others that stay have been there before. -/
theorem ClientTable.staying_sublist (clients : ClientTable) :
    clients.staying.Sublist clients.clients := by
  rw [staying]
  split
  · exact List.erase_sublist
  · exact .refl _

/-! ## Turns -/

/-- A turn of the server that serves a client. -/
structure Turn where
  /-- The server before the turn. -/
  server : Server
  host : Host
  now : Nat
  waiting : Waiting
  /-- The position of the client. -/
  i : Nat
  /-- What came of the attempt to transfer octets from or to it. -/
  transfer : Transfer

namespace Turn

/-- What the turn makes of the server, and its effects. -/
def outcome (t : Turn) : Server × List Effect := t.server.serve t.host t.now t.i t.transfer

/-- What comes of a packet in the turn. -/
def process (t : Turn) (peer : SocketAddr) (packet : List UInt8) :
    Except AgentError (Option (List UInt8)) := (t.server.process t.host packet peer).2

/-- The turn is the one of a given client. -/
structure Serves (t : Turn) (c : Client) : Prop where
  get : t.server.clients.get? t.i = some c
  chosen : t.server.MayHandle t.waiting (.service t.i t.transfer)
  /-- No more octets are read than there is space for. -/
  fits : ∀ octets, t.transfer = .read octets → octets.length ≤ c.frame.spare

variable {t : Turn} {c : Client} {x : Exchange}

theorem Serves.isOpen (h : t.Serves c) : c.closed = false := by
  obtain ⟨d, hd, hopen, -⟩ := h.chosen.exists_get?
  cases h.get.symm.trans hd
  exact hopen

/-- A turn follows the exchange with its client: the request that it completes
    is processed, and no other, the reply that it writes is sent, and no other,
    and of the clients only this one changes. -/
theorem outcome_eq (hc : c.Stands x) (ht : t.Serves c) :
    ∃ d : Client, d.Stands (x.next (t.process c.peer) t.transfer) ∧ d.peer = c.peer ∧
      t.outcome = ({ t.server.given t.host c.peer (x.request? t.transfer) with
          clients := (t.server.clients.served t.i).set t.i d },
        (x.written? t.transfer).toList.map (.reply · c.peer)) := by
  obtain ⟨d, hd, hpeer, htransfer⟩ := Server.transfer_follows
    { t.server with clients := t.server.clients.served t.i } t.host t.now hc ht.isOpen ht.get ht.fits
  refine ⟨d, hd, hpeer, ?_⟩
  rw [outcome, Server.serve, ht.get]
  dsimp only
  rw [htransfer]
  cases x.request? t.transfer <;> rfl

/-- So does the client that is found at its position afterwards. -/
theorem Serves.follows {d : Client} (ht : t.Serves c) (hc : c.Stands x)
    (hget : t.outcome.1.clients.get? t.i = some d) :
    d.Stands (x.next (t.process c.peer) t.transfer) ∧ d.peer = c.peer ∧
      t.outcome = ({ t.server.given t.host c.peer (x.request? t.transfer) with
          clients := (t.server.clients.served t.i).set t.i d },
        (x.written? t.transfer).toList.map (.reply · c.peer)) := by
  obtain ⟨e, he, hpeer, houtcome⟩ := outcome_eq hc ht
  rw [houtcome, ClientTable.get?_set ht.get] at hget
  cases hget
  exact ⟨he, hpeer, houtcome⟩

end Turn

/-! ## All turns of a client -/

/-- The turns of a client, one after another, make of it another client. -/
inductive Served : Client → List Turn → Client → Prop where
  | nil (c : Client) : Served c [] c
  | cons {c c' d : Client} {t : Turn} {turns : List Turn} (ht : t.Serves c)
      (hget : t.outcome.1.clients.get? t.i = some c') (h : Served c' turns d) :
      Served c (t :: turns) d

/-- What has been received since the last reply was written, after some turns
    before which `octets` had been. -/
def Turn.allReceived (octets : List UInt8) (turns : List Turn) : List UInt8 :=
  turns.foldl (fun octets t => t.transfer.received octets) octets

namespace Exchange

/-- The exchange after some turns. -/
def after (peer : SocketAddr) : Exchange → List Turn → Exchange
  | x, [] => x
  | x, t :: turns => after peer (x.next (t.process peer) t.transfer) turns

theorem after_concat (peer : SocketAddr) (x : Exchange) (turns : List Turn) (t : Turn) :
    x.after peer (turns ++ [t]) = (x.after peer turns).next (t.process peer) t.transfer := by
  induction turns generalizing x with
  | nil => rfl
  | cons t' turns ih => exact ih _

/-- The replies that are given in some turns. -/
def replies (peer : SocketAddr) : Exchange → List Turn → List (List UInt8)
  | _, [] => []
  | x, t :: turns => (x.reply? (t.process peer) t.transfer).toList ++
    replies peer (x.next (t.process peer) t.transfer) turns

/-- What is received of a request is all that was read since the last reply was
    written. -/
theorem receiving_of_after {peer : SocketAddr} {x : Exchange} {turns : List Turn}
    {octets acc : List UInt8} (h : x.after peer turns = .receiving octets)
    (hacc : ∀ o, x = .receiving o → acc = o) :
    octets = Turn.allReceived acc turns := by
  induction turns generalizing x acc with
  | nil => exact (hacc octets h).symm
  | cons t turns ih =>
    refine ih h fun o ho => ?_
    exact (x.goesOn (t.process peer) t.transfer).received_eq hacc o ho

end Exchange

namespace Served

variable {c d : Client} {x : Exchange} {turns : List Turn}

/-- A client may have one turn more. -/
theorem concat {e : Client} {t : Turn} (h : Served c turns d) (ht : t.Serves d)
    (hget : t.outcome.1.clients.get? t.i = some e) : Served c (turns ++ [t]) e := by
  induction h with
  | nil => exact .cons ht hget (.nil e)
  | cons ht' hget' _ ih => exact .cons ht' hget' (ih ht)

/-- All turns of a client follow its exchange. -/
theorem follows (h : Served c turns d) (hc : c.Stands x) :
    d.Stands (x.after c.peer turns) ∧ d.peer = c.peer := by
  induction h generalizing x with
  | nil c => exact ⟨hc, rfl⟩
  | @cons c c' d t turns ht hget h ih =>
    obtain ⟨hc', hpeer, -⟩ := ht.follows hc hget
    obtain ⟨hd, hdpeer⟩ := ih hc'
    rw [hpeer] at hd hdpeer
    exact ⟨hd, hdpeer⟩

/-- A client that is done with has no turns. -/
theorem of_closed (h : Served c turns d) (hclosed : c.closed = true) : turns = [] ∧ d = c := by
  cases h with
  | nil => exact ⟨rfl, rfl⟩
  | cons ht hget h =>
    rw [ht.isOpen] at hclosed
    cases hclosed

/-- All replies but the last were written, whole and in order, and so was the
    last one, unless the client is still written to or was lost meanwhile. -/
theorem written (h : Served c turns d) (hc : c.Stands x) : ∃ lacking : List (List UInt8),
    turns.flatMap (·.outcome.2) ++ lacking.map (.reply · c.peer) =
      (x.unwritten ++ x.replies c.peer turns).map (.reply · c.peer) ∧
    lacking.length ≤ 1 ∧ (d.closed = false → lacking = (x.after c.peer turns).unwritten) := by
  -- The reply that is not written when some turns begin is the first one that they write.
  induction h generalizing x with
  | nil c =>
    refine ⟨x.unwritten, ?_, x.length_unwritten_le, fun _ => rfl⟩
    rw [Exchange.replies, List.append_nil, List.flatMap_nil, List.nil_append]
  | @cons c c' d t turns ht hget h ih =>
    obtain ⟨hc', hpeer, houtcome⟩ := ht.follows hc hget
    obtain ⟨lacking, hlacking, hle, hlast⟩ := ih hc'
    have hgoes := x.goesOn (t.process c.peer) t.transfer
    rw [hpeer] at hlacking hlast
    by_cases hended : x.next (t.process c.peer) t.transfer = .ended
    · -- No further turn is the one of a client that is done with, so the reply is lost.
      rw [hended] at hc' hgoes
      obtain ⟨hnone, hunwritten⟩ := hgoes.eq_none_of_ended
      obtain ⟨rfl, rfl⟩ := h.of_closed hc'.closed
      refine ⟨x.unwritten, ?_, x.length_unwritten_le, fun hopen => ?_⟩
      · rw [List.flatMap_cons, houtcome, Exchange.replies, Exchange.replies, hnone, hunwritten]
        simp
      · rw [hc'.closed] at hopen
        cases hopen
    · refine ⟨lacking, ?_, hle, hlast⟩
      rw [List.flatMap_cons, houtcome, List.append_assoc, hlacking, Exchange.replies,
        ← List.append_assoc x.unwritten, ← hgoes.balance hended]
      simp only [List.map_append, List.append_assoc]

end Served

/-! ## The loop -/

/-- The servers that a server becomes by handling what waits, in any order. -/
inductive Server.Becomes (s : Server) : Server → Prop where
  | refl : Becomes s s
  | step {s' : Server} {w : Waiting} {e : Event} (h : Becomes s s') (host : Host) (now : Nat)
      (hchosen : s'.MayHandle w e)
      (hfits : ∀ c octets, w.transfer? c = some (.read octets) → octets.length ≤ c.frame.spare) :
      Becomes s (s'.step host now e).1

namespace Server

variable {s s' : Server} {host : Host} {now : Nat} {c : Client} {e : Event}

/-- Datagrams are no concern of the clients. -/
theorem clients_handleDatagram (s : Server) (host : Host) (packet : List UInt8)
    (peer : SocketAddr) : (s.handleDatagram host packet peer).1.clients = s.clients := by
  rw [handleDatagram]
  split
  · rfl
  · split <;> rename_i hprocess <;> exact congrArg (·.1.clients) hprocess.symm

/-- An event that is not the turn of a client at most brings a new one. -/
theorem mem_handle (he : ∀ i t, e ≠ .service i t)
    (hc : c ∈ (s.handle host now e).1.clients.clients) :
    c ∈ s.clients.clients ∨ ∃ peer, c = Client.accepted peer now := by
  cases e with
  | tick => exact .inl hc
  | datagram packet peer =>
    rw [handle, clients_handleDatagram] at hc
    exact .inl hc
  | connection peer =>
    -- One of the clients may have made place.
    have hstaying := s.clients.staying_sublist.subset
    rw [handle, accept, ClientTable.insert] at hc
    dsimp only at hc
    split_ifs at hc
    · exact .inl (hstaying hc)
    · rcases List.mem_append.1 hc with hold | hnew
      · exact .inl (hstaying hold)
      · exact .inr ⟨peer, List.mem_singleton.1 hnew⟩
  | service i t => exact absurd rfl (he i t)

/-- Each client of a server that began without any was accepted, and then served
    in turns. -/
theorem Becomes.exists_served (hempty : s.clients.clients = []) (h : s.Becomes s') :
    ∀ c ∈ s'.clients.clients, ∃ peer now turns, Served (Client.accepted peer now) turns c := by
  induction h with
  | refl => simp [hempty]
  | @step s' w e h host now hchosen hfits ih =>
    intro c hc
    replace hc := (mem_step_iff.1 hc).1
    cases e with
    | service i t =>
      -- The client that is served has one turn more, and all others have none.
      obtain ⟨d, hget, -, htransfer⟩ := hchosen.exists_get?
      obtain ⟨peer, start, turns, hserved⟩ := ih d (List.mem_of_getElem? hget)
      have hstands := (hserved.follows (Client.accepted_stands peer start)).1
      have hserves : (Turn.mk s' host now w i t).Serves d :=
        ⟨hget, hchosen, fun octets ht => hfits d octets (ht ▸ htransfer)⟩
      obtain ⟨d', -, -, houtcome⟩ := Turn.outcome_eq hstands hserves
      have hafter : (Turn.mk s' host now w i t).outcome.1.clients.get? i = some d' := by
        rw [houtcome]
        exact ClientTable.get?_set hget
      change c ∈ (Turn.mk s' host now w i t).outcome.1.clients.clients at hc
      rw [houtcome] at hc
      rcases List.mem_or_eq_of_mem_set hc with hother | rfl
      · exact ih c hother
      · exact ⟨peer, start, _, hserved.concat hserves hafter⟩
    | _ =>
      rcases mem_handle (fun _ _ => Event.noConfusion) hc with hold | ⟨peer, rfl⟩
      · exact ih c hold
      · exact ⟨peer, now, [], .nil _⟩

end Server

/-! ## What the turns of a client keep to -/

/-- A client that was accepted from a peer and served in some turns, as it ought
    to be. -/
structure Orderly (peer : SocketAddr) (turns : List Turn) (c : Client) : Prop where
  /-- The client stands where its exchange is: its buffer holds what is received
      or to be written, and it is closed exactly if the exchange has ended. -/
  stands : c.Stands ((Exchange.receiving []).after peer turns)
  /-- While it is read from, its buffer holds all that was read since it was
      accepted or since the last reply was written, which is not a whole request
      and never fills the buffer. -/
  reading : c.closed = false → c.direction = .reading →
    c.frame.filled = Turn.allReceived [] turns ∧
      Frame.status c.frame.filled = .ok .incomplete ∧ c.frame.isFull = false
  /-- While it is written to, its buffer holds the last reply that was given. -/
  writing : c.closed = false → c.direction = .writing →
    ((Exchange.receiving []).replies peer turns).getLast? = some c.frame.filled
  /-- In its next turn, the request that is completed is processed, and no
      other, the reply that is written is sent, and no other, and the client
      goes on to stand where its exchange is. -/
  next : ∀ t : Turn, t.Serves c → ∃ d : Client,
    d.Stands ((Exchange.receiving []).after peer (turns ++ [t])) ∧ d.peer = peer ∧
      t.outcome = ({ t.server.given t.host peer
            (((Exchange.receiving []).after peer turns).request? t.transfer) with
          clients := (t.server.clients.served t.i).set t.i d },
        (((Exchange.receiving []).after peer turns).written? t.transfer).toList.map (.reply · peer))
  /-- The replies that were given were written, whole, once and in their order,
      except for the last one as long as the client is written to, or if it was
      lost meanwhile. -/
  written : ∃ lacking : List (List UInt8),
    turns.flatMap (·.outcome.2) ++ lacking.map (.reply · peer) =
      ((Exchange.receiving []).replies peer turns).map (.reply · peer) ∧ lacking.length ≤ 1 ∧
    (c.closed = false → lacking = ((Exchange.receiving []).after peer turns).unwritten)
  /-- When it is closed, it is never served again, and disconnected after the
      turn. -/
  closed : c.closed = true → (∀ t : Turn, ¬t.Serves c) ∧
    ∀ (s : Server) (host : Host) (now : Nat) (e : Event), c ∉ (s.step host now e).1.clients.clients

/-- Every client of a server is orderly, from its connection on: each turn in
    which it is served follows its exchange, whatever else the server does
    between these turns. -/
theorem Served.orderly {peer : SocketAddr} {now : Nat} {turns : List Turn} {c : Client}
    (h : Served (Client.accepted peer now) turns c) : Orderly peer turns c := by
  obtain ⟨hstands, hpeer⟩ := h.follows (Client.accepted_stands peer now)
  have hwritten := h.written (Client.accepted_stands peer now)
  rw [Client.accepted_peer] at hstands hpeer hwritten
  refine ⟨hstands, fun hopen hdirection => ?_, fun hopen hdirection => ?_, fun t ht => ?_, hwritten,
    fun hclosed => ⟨fun t ht => ?_, fun s host now e hc => ?_⟩⟩
  · obtain ⟨hx, hframe, hstatus⟩ := hstands.of_reading hopen hdirection
    refine ⟨Exchange.receiving_of_after hx fun o ho => ?_, hstatus, ?_⟩
    · exact Exchange.receiving.inj ho
    · exact hframe.isFull_eq_false (Frame.length_lt_of_incomplete hstatus)
  · -- The one reply that is not written is the last one of all.
    obtain ⟨lacking, hlacking, -, hlast⟩ := hwritten
    rw [hlast hopen, hstands.of_writing hopen hdirection] at hlacking
    have hreplies := congrArg List.getLast? hlacking
    simpa [Exchange.unwritten, eq_comm] using hreplies
  · obtain ⟨d, hd, hdpeer, houtcome⟩ := Turn.outcome_eq hstands ht
    rw [hpeer] at hd hdpeer houtcome
    rw [Exchange.after_concat]
    exact ⟨d, hd, hdpeer, houtcome⟩
  · rw [ht.isOpen] at hclosed
    cases hclosed
  · rw [(Server.mem_step_iff.1 hc).2] at hclosed
    cases hclosed

/-- The turn of the only client of a server. -/
def Turn.ofOnly (s : Server) (host : Host) (c : Client) (t : Transfer) : Turn where
  server := { s with clients := ⟨[c], maxClients, 0⟩ }
  host := host
  now := 0
  waiting := ⟨false, none, none, fun _ => some t⟩
  i := 0
  transfer := t

/-- Such a turn is one of the client, and follows its exchange. -/
theorem Turn.ofOnly_follows (s : Server) (host : Host) {c : Client} {x : Exchange} {t : Transfer}
    (hc : c.Stands x) (hopen : c.closed = false)
    (hfits : ∀ octets, t = .read octets → octets.length ≤ c.frame.spare) :
    (ofOnly s host c t).Serves c ∧ ∃ d : Client,
      d.Stands (x.next (fun packet => (s.process host packet c.peer).2) t) ∧ d.peer = c.peer ∧
      (ofOnly s host c t).outcome.1.clients.get? 0 = some d ∧
      (ofOnly s host c t).outcome.2 = (x.written? t).toList.map (.reply · c.peer) := by
  have hserves : (ofOnly s host c t).Serves c := by
    refine ⟨rfl, ?_, hfits⟩
    have hready : (⟨[c], maxClients, 0⟩ : ClientTable).ready? (fun _ => true) = some 0 := by
      simp [ClientTable.ready?, ClientTable.order, ClientTable.length, ClientTable.get?, hopen]
    exact .service hready rfl rfl
  obtain ⟨d, hd, hpeer, houtcome⟩ := outcome_eq hc hserves
  exact ⟨hserves, d, hd, hpeer, by rw [houtcome]; rfl, by rw [houtcome]; rfl⟩

/-- Any server may be sent octets by its only client in two pieces. -/
theorem Served.exists_pieces (s : Server) (host : Host) (peer : SocketAddr) {a b : List UInt8}
    (ha : a ≠ []) (hstatus : Frame.status a = .ok .incomplete)
    (hmax : (a ++ b).length ≤ maxPacketSize) : ∃ (t₁ t₂ : Turn) (c : Client),
      t₁.transfer = .read a ∧ t₂.transfer = .read b ∧ t₁.outcome.2 = [] ∧ t₂.outcome.2 = [] ∧
      Served (Client.accepted peer 0) [t₁, t₂] c ∧ c.peer = peer ∧
      c.Stands ((Exchange.receiving a).next (fun packet => (s.process host packet peer).2)
        (.read b)) := by
  rw [List.length_append] at hmax
  have hspare : FrameBuffer.empty.spare = maxPacketSize := FrameBuffer.sound_empty.spare_eq
  obtain ⟨h₁, c₁, hc₁, hpeer₁, hget₁, heffects₁⟩ :=
    Turn.ofOnly_follows s host (t := .read a)
      (Client.accepted_stands peer 0) rfl (by
        rintro _ ⟨⟩
        exact (Nat.le_of_add_right_le hmax).trans_eq hspare.symm)
  have hnext : (Exchange.receiving []).next (fun packet => (s.process host packet peer).2)
      (.read a) = .receiving a := by
    rw [Exchange.next, if_neg ha, List.nil_append, hstatus]
  rw [Client.accepted_peer] at hc₁ hpeer₁
  rw [hnext] at hc₁
  obtain ⟨hopen₁, -, hframe₁, hfilled₁, -⟩ := id hc₁
  obtain ⟨h₂, c₂, hc₂, hpeer₂, hget₂, heffects₂⟩ :=
    Turn.ofOnly_follows s host (t := .read b) hc₁ hopen₁ (by
      rintro _ ⟨⟩
      rw [hframe₁.spare_eq, hfilled₁]
      omega)
  rw [hpeer₁] at hc₂ hpeer₂
  exact ⟨_, _, c₂, rfl, rfl, heffects₁, heffects₂, .cons h₁ hget₁ (.cons h₂ hget₂ (.nil c₂)),
    hpeer₂, hc₂⟩

/-- The octets of the reply to the request for the uptime of the agent. -/
def uptimeReply : List UInt8 :=
  [0x30, 0x28, 0x02, 0x01, 0x01, 0x04, 0x06, 0x70, 0x75, 0x62, 0x6C, 0x69, 0x63, 0xA2, 0x1B, 0x02,
    0x01, 0x01, 0x02, 0x01, 0x00, 0x02, 0x01, 0x00, 0x30, 0x10, 0x30, 0x0E, 0x06, 0x08, 0x2B, 0x06,
    0x01, 0x02, 0x01, 0x01, 0x03, 0x00, 0x43, 0x02, 0x01, 0x2C]

/-- A client that sends that request in two pieces is sent the reply. -/
theorem Served.orderly_uptimeRequest : ∃ (s : Server) (turns : List Turn) (c : Client),
    Server.bind {} (Host.static { agentUptime := 300 }) = .ok s ∧
    turns.map (·.transfer) = [.read (Engine.uptimeRequest.take 20),
      .read (Engine.uptimeRequest.drop 20), .written] ∧
    Served (Client.accepted (.v4 ⟨127, 0, 0, 1⟩ 40000) 0) turns c ∧
    turns.flatMap (·.outcome.2) = [.reply uptimeReply (.v4 ⟨127, 0, 0, 1⟩ 40000)] ∧
    Orderly (.v4 ⟨127, 0, 0, 1⟩ 40000) turns c := by
  have hrun : (do
      let s ← Server.bind {} (Host.static { agentUptime := 300 })
      (s.process (Host.static { agentUptime := 300 }) Engine.uptimeRequest
        (.v4 ⟨127, 0, 0, 1⟩ 40000)).2) = .ok (some uptimeReply) := by
    decide +kernel
  obtain ⟨s, hbind, hresult⟩ := except_bind_eq_ok.1 hrun
  obtain ⟨t₁, t₂, c₂, ht₁, ht₂, heffects₁, heffects₂, hserved, hpeer, hc₂⟩ :=
    Served.exists_pieces s (Host.static { agentUptime := 300 }) (.v4 ⟨127, 0, 0, 1⟩ 40000)
      (a := Engine.uptimeRequest.take 20) (b := Engine.uptimeRequest.drop 20) (by decide) rfl
      (by decide)
  replace hc₂ : c₂.Stands (Exchange.answered (s.process (Host.static { agentUptime := 300 })
    Engine.uptimeRequest (.v4 ⟨127, 0, 0, 1⟩ 40000)).2) := hc₂
  rw [hresult] at hc₂
  obtain ⟨h₃, c₃, -, -, hget₃, heffects₃⟩ :=
    Turn.ofOnly_follows s (Host.static { agentUptime := 300 }) (t := .written) hc₂
      (by cases hc₂; assumption) (by rintro _ ⟨⟩)
  have hall := hserved.concat h₃ hget₃
  refine ⟨s, _, c₃, hbind, ?_, hall, ?_, hall.orderly⟩
  · rw [List.map_append, List.map_cons, List.map_cons, ht₁, ht₂]
    rfl
  · rw [hpeer] at heffects₃
    simp only [List.cons_append, List.nil_append, List.flatMap_cons, heffects₁, heffects₂,
      heffects₃]
    rfl

end SnmpAgent
