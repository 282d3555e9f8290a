import SnmpAgent.Proofs.Server.Turns
import SnmpAgent.Proofs.Message.Forms

/-!
# Requests on streams

A stream that delivers a request, in whatever pieces, is treated as a datagram
with the same octets: only with the last piece the request is processed, and
what would have been sent as a datagram is written to the client. The one
condition is that the request is long enough to be judged as a frame. All
requests with varbinds are; for some without any, the server goes on waiting.

* `Message.Form.minPacketSize_le`: a message with varbinds is long enough;
* `Message.status_of_form`: a message is a complete frame exactly if it is long
  enough;
* `Served.feeds`: nothing is processed before the last piece;
* `Message.streamed_eq_datagram`: the stream and the datagram compared.
-/

namespace SnmpAgent

/-! ## Sizes -/

/-- An INTEGER has at least three octets. -/
theorem Integer.three_le_length {o : List UInt8} {v : Int32}
    (h : Element.Form Tag.integer Form o v) : 3 ≤ o.length := by
  obtain ⟨content, hcontent, hle⟩ := h.exists_content
  have hpos := List.length_pos_iff.2 hcontent.ne_nil
  omega

/-- A varbind has at least seven octets. -/
theorem VarBind.Form.seven_le_length {o : List UInt8} {v : VarBind} (h : Form o v) :
    7 ≤ o.length := by
  obtain ⟨_, ⟨hname, hvalue⟩, hle⟩ := Element.Form.exists_content h
  obtain ⟨name, hoid, hname⟩ := hname.exists_content
  obtain ⟨value, -, hvalue⟩ := Element.Form.exists_content hvalue
  have hpos := List.length_pos_iff.2 hoid.ne_nil
  rw [List.length_append] at hle
  omega

/-- A list with varbinds has at least nine octets. -/
theorem VarBind.nine_le_length {max : Nat} {o : List UInt8} {vs : List VarBind}
    (h : Element.Form Tag.sequence (ListForm max) o vs) (hvs : vs ≠ []) : 9 ≤ o.length := by
  obtain ⟨_, ⟨hos, -⟩, hle⟩ := h.exists_content
  cases hos with
  | nil => exact absurd rfl hvs
  | cons hv _ =>
    have hlength := hv.seven_le_length
    rw [List.flatten_cons, List.length_append] at hle
    omega

/-- A PDU with varbinds has at least twenty octets. -/
theorem Pdu.Form.twenty_le_length {max : Nat} {o : List UInt8} {p : Pdu} (h : Form max o p)
    (hvs : p.varbinds ≠ []) : 20 ≤ o.length := by
  obtain ⟨_, ⟨hid, hstatus, hindex, hvarbinds⟩, hle⟩ := Element.Form.exists_content h
  have hid := Integer.three_le_length hid
  have hstatus := Integer.three_le_length hstatus
  have hindex := Integer.three_le_length hindex
  have hvarbinds := VarBind.nine_le_length hvarbinds hvs
  simp only [List.length_append] at hle
  omega

namespace Message

variable {max : Nat} {p : List UInt8} {m : Message}

/-- A message with varbinds is long enough to be judged as a frame. -/
theorem Form.minPacketSize_le (h : Form max p m) (hvs : m.pdu.varbinds ≠ []) :
    minPacketSize ≤ p.length := by
  obtain ⟨_, ⟨hversion, hcommunity, hfits, hpdu⟩, hle⟩ := Element.Form.exists_content h
  obtain ⟨_, rfl, hcommunity⟩ := hcommunity.exists_content
  have hversion := Integer.three_le_length hversion
  have hpos := List.length_pos_iff.2 hfits.1
  have hpdu := hpdu.twenty_le_length hvs
  simp only [List.length_append] at hle
  rw [minPacketSize]
  omega

/-- A message is a complete frame exactly if it is long enough to be judged. -/
theorem status_of_form (h : Form max p m) (hmax : p.length ≤ maxPacketSize) :
    Frame.status p = .ok (if minPacketSize ≤ p.length then .complete else .incomplete) := by
  split_ifs with hmin
  · obtain ⟨hl, -⟩ := h
    exact Frame.status_eq_complete_iff.2 ⟨hmin, hmax, _, _, hl, rfl⟩
  · exact Frame.status_of_length_lt (Nat.not_le.1 hmin)

end Message

/-! ## Pieces -/

/-- The transfers that feed a request to the server: pieces of it are read, or
    nothing yet. -/
def Transfer.Feeds : Transfer → Prop
  | .read more => more ≠ []
  | .pending => True
  | .written | .failed => False

/-- What was received stays so. -/
theorem Transfer.Feeds.isPrefix_received {t : Transfer} (h : t.Feeds) (octets : List UInt8) :
    octets <+: t.received octets := by
  cases t with
  | read more => exact List.prefix_append octets more
  | pending => exact List.prefix_rfl
  | written | failed => exact h.elim

/-- What was received is where all that is received begins. -/
theorem Turn.isPrefix_allReceived {turns : List Turn} (h : ∀ t ∈ turns, t.transfer.Feeds)
    (octets : List UInt8) : octets <+: allReceived octets turns := by
  induction turns generalizing octets with
  | nil => exact List.prefix_rfl
  | cons t turns ih =>
    obtain ⟨ht, hturns⟩ := List.forall_mem_cons.1 h
    exact (ht.isPrefix_received octets).trans (ih hturns _)

/-- Some turns and then one more deliver octets piece by piece, the rest of them
    in the last turn. -/
structure Delivers (p : List UInt8) (turns : List Turn) (last : Turn) : Prop where
  feeds : ∀ t ∈ turns, t.transfer.Feeds
  /-- In the last turn, all that is lacking is read. -/
  completes : ∃ more, more ≠ [] ∧ last.transfer = .read more ∧
    Turn.allReceived [] turns ++ more = p

namespace Exchange

variable (process : List UInt8 → Except AgentError (Option (List UInt8))) {t : Transfer}
  {octets p : List UInt8}

/-- As long as something is lacking, what feeds a request is only received. -/
theorem next_of_feeds (hp : Frame.status p = .ok .complete) (ht : t.Feeds)
    (hbegins : t.received octets <+: p) (hne : t.received octets ≠ p) :
    (receiving octets).next process t = .receiving (t.received octets) ∧
      (receiving octets).request? t = none ∧ (receiving octets).written? t = none := by
  cases t with
  | read more =>
    have hstatus : Frame.status (octets ++ more) = .ok .incomplete :=
      Frame.status_of_isPrefix hp hbegins hne
    rw [next, request?, if_neg ht, if_neg ht, hstatus]
    exact ⟨rfl, rfl, rfl⟩
  | pending => exact ⟨rfl, rfl, rfl⟩
  | written | failed => exact ht.elim

/-- The last piece completes the request, which is then processed. -/
theorem next_of_complete {more : List UInt8} (hp : Frame.status p = .ok .complete)
    (hmore : more ≠ []) (hall : octets ++ more = p) :
    (receiving octets).next process (.read more) = answered (process p) ∧
      (receiving octets).request? (.read more) = some p ∧
      (receiving octets).written? (.read more) = none := by
  rw [next, request?, if_neg hmore, if_neg hmore, hall, hp]
  exact ⟨rfl, rfl, rfl⟩

end Exchange

namespace Served

variable {c d : Client} {turns : List Turn} {octets p : List UInt8}

/-- The last turn of a client comes after the others. -/
theorem of_concat {t : Turn} (h : Served c (turns ++ [t]) d) :
    ∃ c', Served c turns c' ∧ t.Serves c' ∧ t.outcome.1.clients.get? t.i = some d := by
  induction turns generalizing c with
  | nil =>
    cases h with
    | cons ht hget h =>
      cases h
      exact ⟨c, .nil c, ht, hget⟩
  | cons t' turns ih =>
    cases h with
    | cons ht hget h =>
      obtain ⟨c', hc', hlast⟩ := ih h
      exact ⟨c', .cons ht hget hc', hlast⟩

/-- As long as something of a request is lacking, the server processes nothing
    of it and sends nothing. -/
theorem feeds (h : Served c turns d) (hc : c.Stands (.receiving octets))
    (hfeeds : ∀ t ∈ turns, t.transfer.Feeds) (hp : Frame.status p = .ok .complete)
    (hbegins : Turn.allReceived octets turns <+: p)
    (hne : Turn.allReceived octets turns ≠ p) :
    d.Stands (.receiving (Turn.allReceived octets turns)) ∧
      d.peer = c.peer ∧ ∀ t ∈ turns, ∃ e, t.outcome =
        ({ t.server with clients := (t.server.clients.served t.i).set t.i e }, []) := by
  induction h generalizing octets with
  | nil c => exact ⟨hc, rfl, List.forall_mem_nil _⟩
  | @cons c c' d t turns ht hget h ih =>
    obtain ⟨hfeed, hfeeds⟩ := List.forall_mem_cons.1 hfeeds
    -- What is received by now begins what is received in the end, and so lacks as much.
    have hnow : t.transfer.received octets <+:
        Turn.allReceived (t.transfer.received octets) turns :=
      Turn.isPrefix_allReceived hfeeds _
    have hlack : t.transfer.received octets ≠ p := by
      intro hall
      exact hne (hbegins.eq_of_length_le ((congrArg List.length hall).ge.trans hnow.length_le))
    obtain ⟨hc', hpeer, houtcome⟩ := ht.follows hc hget
    obtain ⟨hnext, hrequest, hwritten⟩ := Exchange.next_of_feeds
      (t.process c.peer) hp hfeed (hnow.trans hbegins) hlack
    rw [hnext] at hc'
    rw [hrequest, hwritten] at houtcome
    obtain ⟨hd, hdpeer, hothers⟩ := ih hc' hfeeds hbegins hne
    exact ⟨hd, hdpeer.trans hpeer, List.forall_mem_cons.2 ⟨⟨_, houtcome⟩, hothers⟩⟩

end Served

/-! ## Datagrams -/

/-- A datagram of acceptable size is processed, and the reply to it is sent
    back. -/
theorem Server.handleDatagram_eq (s : Server) (host : Host) {packet : List UInt8}
    (hmax : packet.length ≤ maxPacketSize) (peer : SocketAddr) :
    s.handleDatagram host packet peer = ((s.process host packet peer).1,
      (replyOf (s.process host packet peer).2).toList.map (.datagram · peer)) := by
  rw [handleDatagram, if_neg (Nat.not_lt.2 hmax)]
  rcases s.process host packet peer with ⟨s', e | _ | reply⟩ <;> rfl

/-- What is written after a request was processed is the reply to it. -/
theorem Exchange.written?_answered (result : Except AgentError (Option (List UInt8))) :
    (answered result).written? .written = replyOf result := by
  rcases result with e | _ | reply <;> rfl

/-- A request that is long enough to be judged as a frame has the same outcome
    on a stream, in whatever pieces it comes, as it has as a datagram: only with
    the last piece it is processed, and the reply that the datagram is answered
    with is written to the client. This holds of every client of which nothing
    is received yet, be it new or after other requests. All requests with
    varbinds are long enough, and a request that is not is an incomplete frame. -/
theorem Message.streamed_eq_datagram {p : List UInt8} {m : Message}
    (hdecode : decode p maxRequestVarbinds = .ok m) (hmax : p.length ≤ maxPacketSize) :
    (m.pdu.varbinds ≠ [] → minPacketSize ≤ p.length) ∧
    Frame.status p = .ok (if minPacketSize ≤ p.length then .complete else .incomplete) ∧
    ∀ {c c' : Client} {turns : List Turn} {t : Turn}, minPacketSize ≤ p.length →
      c.Stands (.receiving []) → Served c (turns ++ [t]) c' → Delivers p turns t →
      (∀ t' ∈ turns, ∃ d, t'.outcome =
        ({ t'.server with clients := (t'.server.clients.served t'.i).set t'.i d }, [])) ∧
      ∃ reply? : Option (List UInt8),
        (t.server.handleDatagram t.host p c.peer).2 = reply?.toList.map (.datagram · c.peer) ∧
        t.outcome = ({ (t.server.handleDatagram t.host p c.peer).1 with
          clients := (t.server.clients.served t.i).set t.i c' }, []) ∧
        c'.Stands (reply?.elim .ended .replying) ∧
        ∀ t' : Turn, t'.Serves c' → t'.transfer = .written →
          t'.outcome.2 = reply?.toList.map (.reply · c.peer) := by
  have hform := decode_eq_ok_iff.1 hdecode
  refine ⟨hform.minPacketSize_le, status_of_form hform hmax, ?_⟩
  rintro c c' turns t hmin hc hserved ⟨hfeeds, more, hmore, hlast, hall⟩
  have hp : Frame.status p = .ok .complete := by rw [status_of_form hform hmax, if_pos hmin]
  have hbegins : Turn.allReceived [] turns <+: p := ⟨more, hall⟩
  have hlack : Turn.allReceived [] turns ≠ p := by
    intro hwhole
    rw [hwhole] at hall
    exact hmore (List.append_right_eq_self.1 hall)
  -- Before the last turn, the client stands where all but the last piece is received.
  obtain ⟨d, hd, hserves, hget⟩ := hserved.of_concat
  obtain ⟨hstands, hpeer, hothers⟩ := hd.feeds hc hfeeds hp hbegins hlack
  -- In the last turn, the request is processed as the datagram would be.
  obtain ⟨hc', hcpeer, houtcome⟩ := hserves.follows hstands hget
  obtain ⟨hnext, hrequest, hwritten⟩ :=
    Exchange.next_of_complete (t.process d.peer) hp hmore hall
  rw [hlast] at hc' houtcome
  rw [hrequest, hwritten] at houtcome
  rw [hnext, hpeer] at hc'
  rw [hpeer] at houtcome hcpeer
  have hdatagram := t.server.handleDatagram_eq t.host hmax c.peer
  refine ⟨hothers, replyOf (t.process c.peer p), ?_, ?_, hc', fun t' ht' hwrites => ?_⟩
  · rw [hdatagram]
    rfl
  · rw [hdatagram]
    exact houtcome
  · obtain ⟨e, -, -, houtcome'⟩ := Turn.outcome_eq hc' ht'
    rw [houtcome', hwrites, hcpeer, Exchange.written?_answered]

/-- The message of a request without varbinds, with a community of one octet. -/
def bareMessage : Message := ⟨.v2c, [0x78], ⟨.getRequest, 0x1234, 0, 0, []⟩⟩

/-- The octets of that message. -/
def bareRequest : List UInt8 :=
  [0x30, 0x14, 0x02, 0x01, 0x01, 0x04, 0x01, 0x78, 0xA0, 0x0C, 0x02, 0x02, 0x12, 0x34, 0x02, 0x01,
    0x00, 0x02, 0x01, 0x00, 0x30, 0x00]

/-- That request is a whole message, but too short to be judged as a frame. -/
theorem status_bareRequest : Message.decode bareRequest maxRequestVarbinds = .ok bareMessage ∧
    bareRequest.length ≤ maxPacketSize ∧ Frame.status bareRequest = .ok .incomplete :=
  ⟨rfl, by decide, rfl⟩

/-- A client that sends the request for the uptime of the agent in two pieces is
    written what the request would be answered with as a datagram. -/
theorem streamed_uptimeRequest : ∃ (s : Server) (t₁ t₂ : Turn) (c : Client),
    Server.bind {} (Host.static { agentUptime := 300 }) = .ok s ∧
    t₁.transfer = .read (Engine.uptimeRequest.take 20) ∧
    t₂.transfer = .read (Engine.uptimeRequest.drop 20) ∧
    Served (Client.accepted (.v4 ⟨127, 0, 0, 1⟩ 40000) 0) ([t₁] ++ [t₂]) c ∧
    ∃ reply? : Option (List UInt8),
      (t₂.server.handleDatagram t₂.host Engine.uptimeRequest (.v4 ⟨127, 0, 0, 1⟩ 40000)).2 =
        reply?.toList.map (.datagram · (.v4 ⟨127, 0, 0, 1⟩ 40000)) ∧
      c.Stands (reply?.elim .ended .replying) := by
  obtain ⟨s, hbind⟩ := exists_eq_ok_of_isOk
    (x := Server.bind {} (Host.static { agentUptime := 300 })) (by decide +kernel)
  obtain ⟨m, hdecode⟩ := exists_eq_ok_of_isOk
    (x := Message.decode Engine.uptimeRequest maxRequestVarbinds) rfl
  obtain ⟨t₁, t₂, c, ht₁, ht₂, -, -, hserved, -, -⟩ :=
    Served.exists_pieces s (Host.static { agentUptime := 300 }) (.v4 ⟨127, 0, 0, 1⟩ 40000)
      (a := Engine.uptimeRequest.take 20) (b := Engine.uptimeRequest.drop 20) (by decide) rfl
      (by decide)
  have hdelivers : Delivers Engine.uptimeRequest [t₁] t₂ := by
    refine ⟨?_, Engine.uptimeRequest.drop 20, by decide, ht₂, ?_⟩
    · rw [List.forall_mem_singleton, ht₁]
      exact List.cons_ne_nil _ _
    · change t₁.transfer.received [] ++ Engine.uptimeRequest.drop 20 = Engine.uptimeRequest
      rw [ht₁]
      rfl
  obtain ⟨-, -, halike⟩ := Message.streamed_eq_datagram hdecode (by decide)
  obtain ⟨-, reply?, hdatagram, -, hstands, -⟩ :=
    halike (by decide) (Client.accepted_stands _ 0) hserved hdelivers
  exact ⟨s, t₁, t₂, c, hbind, ht₁, ht₂, hserved, reply?, hdatagram, hstands⟩

end SnmpAgent
