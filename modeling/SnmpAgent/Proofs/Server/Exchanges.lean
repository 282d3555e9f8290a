import SnmpAgent.Proofs.Server.Frames
import SnmpAgent.Proofs.Engine.Replies
import SnmpAgent.Server

/-!
# Exchanges with clients

The *exchange* with a client is a sequence of requests and replies, one at a
time: octets are received until they are a whole request, then the reply to
it is written, and only then are further octets received. An end of the
stream, octets that cannot be a request, and a request without a reply end the
exchange.

This is told of a client by what was transferred from and to it and by what
came of its requests, without its buffer, which is the same space for requests
and replies.

* `Exchange.next`, `Exchange.request?`, `Exchange.written?`: what a transfer
  makes of an exchange, and what the server does in it;
* `Exchange.GoesOn`: the ways in which an exchange goes on;
* `Client.Stands`: the client stands where the exchange is;
* `Server.transfer_follows`: every transfer is handled as the exchange says.
-/

namespace SnmpAgent

/-! ## Exchanges -/

/-- How far the exchange with a client is: some octets of a request are
    received, or a reply is to be written, until nothing happens any more. -/
inductive Exchange where
  | receiving (octets : List UInt8)
  | replying (reply : List UInt8)
  | ended
  deriving DecidableEq

/-- What has been received since the last reply was written, where `octets` had
    been before. -/
def Transfer.received (octets : List UInt8) : Transfer → List UInt8
  | .read more => octets ++ more
  | .written => []
  | .pending | .failed => octets

/-- The reply to a request, if there is one: silence and errors have none. -/
def replyOf : Except AgentError (Option (List UInt8)) → Option (List UInt8)
  | .ok reply? => reply?
  | .error _ => none

namespace Exchange

/-- The exchange after a request was processed. -/
def answered (result : Except AgentError (Option (List UInt8))) : Exchange :=
  (replyOf result).elim .ended .replying

/-- The exchange after a transfer; `process` tells what comes of a request. -/
def next (process : List UInt8 → Except AgentError (Option (List UInt8))) :
    Exchange → Transfer → Exchange
  | .receiving octets, .read more =>
    if more = [] then .ended
    else
      match Frame.status (octets ++ more) with
      | .ok .incomplete => .receiving (octets ++ more)
      | .ok .complete => answered (process (octets ++ more))
      | .error _ => .ended
  | .replying _, .written => .receiving []
  | x, .pending => x
  | _, _ => .ended

/-- The request that a transfer completes, if it does. -/
def request? : Exchange → Transfer → Option (List UInt8)
  | .receiving octets, .read more =>
    if more = [] then none
    else
      match Frame.status (octets ++ more) with
      | .ok .complete => some (octets ++ more)
      | _ => none
  | _, _ => none

/-- The reply that a transfer writes, if it does. -/
def written? : Exchange → Transfer → Option (List UInt8)
  | .replying reply, .written => some reply
  | _, _ => none

/-- The reply that is given to the request that a transfer completes, if it is. -/
def reply? (process : List UInt8 → Except AgentError (Option (List UInt8))) (x : Exchange)
    (t : Transfer) : Option (List UInt8) :=
  (x.request? t).bind fun request => replyOf (process request)

/-- The replies that were given and are not written yet, of which there is at
    most one. -/
def unwritten : Exchange → List (List UInt8)
  | .replying reply => [reply]
  | _ => []

theorem length_unwritten_le (x : Exchange) : x.unwritten.length ≤ 1 := by
  cases x <;> simp [unwritten]

/-- How an exchange goes on with a transfer, with the reply that is given in it
    and the one that is written. -/
inductive GoesOn : Exchange → Transfer → Exchange → Option (List UInt8) → Option (List UInt8) →
    Prop where
  | receives (octets more : List UInt8) :
      GoesOn (.receiving octets) (.read more) (.receiving (octets ++ more)) none none
  | answers (octets more reply : List UInt8) :
      GoesOn (.receiving octets) (.read more) (.replying reply) (some reply) none
  | writes (reply : List UInt8) : GoesOn (.replying reply) .written (.receiving []) none (some reply)
  | waits (x : Exchange) : GoesOn x .pending x none none
  | ends (x : Exchange) (t : Transfer) : GoesOn x t .ended none none

namespace GoesOn

variable {x y : Exchange} {t : Transfer} {given? written? : Option (List UInt8)}

/-- What is received of a request is all that was read since the last reply was
    written. -/
theorem received_eq (h : GoesOn x t y given? written?) {acc : List UInt8}
    (hacc : ∀ octets, x = .receiving octets → acc = octets) :
    ∀ octets, y = .receiving octets → t.received acc = octets := by
  rintro octets rfl
  cases h with
  | receives octets more => rw [Transfer.received, hacc octets rfl]
  | writes reply => rfl
  | waits => exact hacc octets rfl

/-- As long as the exchange goes on, every reply that is given is yet to be
    written, and every reply that is written was given before. -/
theorem balance (h : GoesOn x t y given? written?) (hgoes : y ≠ .ended) :
    written?.toList ++ y.unwritten = x.unwritten ++ given?.toList := by
  cases h with
  | receives | answers | writes => rfl
  | waits => exact (List.append_nil _).symm
  | ends => exact absurd rfl hgoes

/-- A transfer that ends the exchange writes no reply, and no reply is given in
    it. -/
theorem eq_none_of_ended (h : GoesOn x t .ended given? written?) :
    given? = none ∧ written? = none := by
  cases h <;> exact ⟨rfl, rfl⟩

end GoesOn

/-- So each transfer lets an exchange go on. -/
theorem goesOn (process : List UInt8 → Except AgentError (Option (List UInt8))) (x : Exchange)
    (t : Transfer) : GoesOn x t (x.next process t) (x.reply? process t) (x.written? t) := by
  -- Where neither octets are received nor a reply is written, the exchange waits or ends.
  cases x with
  | receiving octets =>
    cases t with
    | read more =>
      rw [next, reply?, request?, written?]
      · by_cases hmore : more = []
        · rw [if_pos hmore, if_pos hmore]
          exact .ends _ _
        · rw [if_neg hmore, if_neg hmore]
          cases Frame.status (octets ++ more) with
          | error e => exact .ends _ _
          | ok status =>
            cases status with
            | incomplete => exact .receives octets more
            | complete =>
              dsimp only
              rw [Option.bind_some, answered]
              rcases process (octets ++ more) with e | _ | reply
              · exact .ends _ _
              · exact .ends _ _
              · exact .answers octets more reply
      · exact fun _ h => by cases h
    | pending => exact .waits _
    | written | failed => exact .ends _ _
  | replying reply =>
    cases t with
    | written => exact .writes reply
    | pending => exact .waits _
    | read | failed => exact .ends _ _
  | ended =>
    cases t with
    | pending => exact .waits _
    | read | written | failed => exact .ends _ _

end Exchange

/-- Where a client stands in an exchange. One that receives is read from and has
    room for more in its buffer; one that replies is written to, with the reply
    in its buffer. -/
inductive Client.Stands (c : Client) : Exchange → Prop where
  | receiving {octets : List UInt8} (hopen : c.closed = false) (hdirection : c.direction = .reading)
      (hframe : c.frame.Sound) (hfilled : c.frame.filled = octets)
      (hstatus : Frame.status octets = .ok .incomplete) : Stands c (.receiving octets)
  | replying {reply : List UInt8} (hopen : c.closed = false) (hdirection : c.direction = .writing)
      (hframe : c.frame.Sound) (hfilled : c.frame.filled = reply) : Stands c (.replying reply)
  | ended (hclosed : c.closed = true) : Stands c .ended

/-- The server after it processed a request, if there is one. -/
def Server.given (s : Server) (host : Host) (peer : SocketAddr) : Option (List UInt8) → Server
  | some request => (s.process host request peer).1
  | none => s

namespace Client

variable {c : Client} {x : Exchange}

@[simp] theorem accepted_peer (peer : SocketAddr) (now : Nat) : (accepted peer now).peer = peer := rfl

theorem accepted_stands (peer : SocketAddr) (now : Nat) :
    (accepted peer now).Stands (.receiving []) :=
  .receiving rfl rfl FrameBuffer.sound_empty rfl rfl

/-- An open client that is read from stands where a request is received. -/
theorem Stands.of_reading (h : c.Stands x) (hopen : c.closed = false)
    (hdirection : c.direction = .reading) : x = .receiving c.frame.filled ∧ c.frame.Sound ∧
      Frame.status c.frame.filled = .ok .incomplete := by
  cases h with
  | receiving _ _ hframe hfilled hstatus => exact ⟨by rw [hfilled], hframe, hfilled ▸ hstatus⟩
  | replying _ hwriting => rw [hwriting] at hdirection; cases hdirection
  | ended hclosed => rw [hclosed] at hopen; cases hopen

/-- An open client that is written to stands where a reply is written. -/
theorem Stands.of_writing (h : c.Stands x) (hopen : c.closed = false)
    (hdirection : c.direction = .writing) : x = .replying c.frame.filled := by
  cases h with
  | receiving _ hreading => rw [hreading] at hdirection; cases hdirection
  | replying _ _ _ hfilled => rw [hfilled]
  | ended hclosed => rw [hclosed] at hopen; cases hopen

/-- Where the exchange has ended, the client is done with. -/
theorem Stands.closed (h : c.Stands .ended) : c.closed = true := by
  cases h with
  | ended hclosed => exact hclosed

/-- A client that was processed a request stands where the answer leads: a reply
    can always be staged. -/
theorem answer_stands (result : Except AgentError (Option (List UInt8)))
    (hopen : c.closed = false) (hframe : c.frame.Sound)
    (hresult : ∀ reply, result = .ok (some reply) → reply.length ≤ maxPacketSize) :
    (c.answer result).Stands (Exchange.answered result) ∧ (c.answer result).peer = c.peer := by
  rcases result with e | _ | reply
  · exact ⟨.ended rfl, rfl⟩
  · exact ⟨.ended rfl, rfl⟩
  · obtain ⟨frame, hstage, hsound, hfilled⟩ := hframe.exists_stage? (hresult reply rfl)
    rw [answer, hstage]
    exact ⟨.replying hopen rfl hsound hfilled, rfl⟩

end Client

/-! ## Transfers -/

namespace Server

variable {s : Server} {i : Nat} {c : Client} {x : Exchange}

/-- Replacing a client by itself changes nothing. -/
theorem setClient_self (hget : s.clients.get? i = some c) : s.setClient i c = s := by
  have hset : s.clients.clients.set i c = s.clients.clients := by
    obtain ⟨hi, rfl⟩ := List.getElem?_eq_some_iff.1 hget
    exact List.set_getElem_self hi
  rw [setClient, ClientTable.set, hset]

/-- What is read from a client is handled as its exchange says, and if it
    completes a request, then that request is processed. -/
theorem receive_follows (s : Server) (host : Host) (now i : Nat) {octets more : List UInt8}
    (hc : c.Stands (.receiving octets)) (hmore : more ≠ []) (hfits : more.length ≤ c.frame.spare) :
    ∃ d : Client, d.Stands ((Exchange.receiving octets).next
        (fun packet => (s.process host packet c.peer).2) (.read more)) ∧ d.peer = c.peer ∧
      s.receive host now i c more =
        (s.given host c.peer ((Exchange.receiving octets).request? (.read more))).setClient i d := by
  cases hc with
  | receiving hopen hdirection hframe hfilled hstatus =>
    -- The buffer is judged with what is appended to it.
    obtain ⟨hsound, hextended⟩ := hframe.extend hfits
    rw [hfilled] at hextended
    rw [receive, Client.receive, Exchange.next, Exchange.request?, if_neg hmore, if_neg hmore]
    dsimp only
    rw [FrameBuffer.status, hextended]
    cases hframed : Frame.status (octets ++ more) with
    | error e =>
      exact ⟨{ c with frame := c.frame.extend more, lastActivity := now, closed := true },
        .ended rfl, rfl, rfl⟩
    | ok status =>
      cases status with
      | incomplete =>
        exact ⟨{ c with frame := c.frame.extend more, lastActivity := now },
          .receiving hopen hdirection hsound hextended hframed, rfl, rfl⟩
      | complete =>
        obtain ⟨hstands, hpeer⟩ := Client.answer_stands
          (c := { c with frame := (c.frame.extend more).clear, lastActivity := now })
          (s.process host (octets ++ more) c.peer).2 hopen hsound.clear
          fun reply hreply => Engine.length_le_of_process hreply
        exact ⟨_, hstands, hpeer, rfl⟩

/-- A transfer is handled as the exchange with the client says. -/
theorem transfer_follows (s : Server) (host : Host) (now : Nat) {t : Transfer}
    (hc : c.Stands x) (hopen : c.closed = false) (hget : s.clients.get? i = some c)
    (hfits : ∀ octets, t = .read octets → octets.length ≤ c.frame.spare) :
    ∃ d : Client, d.Stands (x.next (fun packet => (s.process host packet c.peer).2) t) ∧
      d.peer = c.peer ∧ s.transfer host now i c t =
        ((s.given host c.peer (x.request? t)).setClient i d,
          (x.written? t).toList.map (.reply · c.peer)) := by
  have hself := setClient_self hget
  cases id hc with
  | ended hclosed =>
    rw [hclosed] at hopen
    cases hopen
  | @receiving octets _ hdirection hframe hfilled hstatus =>
    unfold transfer
    rw [hdirection]
    cases t with
    | read more =>
      dsimp only
      by_cases hmore : more = []
      · -- The end of the stream.
        rw [if_pos (.inl (List.isEmpty_iff.2 hmore)), Exchange.next, Exchange.request?,
          if_pos hmore, if_pos hmore]
        exact ⟨c.close, .ended rfl, rfl, rfl⟩
      · -- What is incomplete never fills the buffer.
        have hroom : c.frame.isFull = false :=
          hframe.isFull_eq_false (hfilled ▸ Frame.length_lt_of_incomplete hstatus)
        rw [if_neg (by simp [hmore, hroom])]
        obtain ⟨d, hd, hpeer, hreceive⟩ := s.receive_follows host now i hc hmore (hfits more rfl)
        rw [hreceive]
        exact ⟨d, hd, hpeer, rfl⟩
    | pending => exact ⟨c, hc, rfl, congrArg (·, []) hself.symm⟩
    | written | failed => exact ⟨c.close, .ended rfl, rfl, rfl⟩
  | @replying reply _ hdirection hframe hfilled =>
    unfold transfer
    rw [hdirection]
    cases t with
    | written =>
      refine ⟨c.sent now, ?_, rfl, ?_⟩
      · exact .receiving hopen rfl hframe.clear (FrameBuffer.filled_clear _) rfl
      · dsimp only
        rw [hfilled]
        rfl
    | pending => exact ⟨c, hc, rfl, congrArg (·, []) hself.symm⟩
    | read | failed => exact ⟨c.close, .ended rfl, rfl, rfl⟩

end Server

end SnmpAgent
