import Mathlib.Algebra.Order.BigOperators.Group.List
import SnmpAgent.Loopback
import SnmpAgent.Loopback.Table
import SnmpAgent.Proofs.Server.Operations

/-!
# Scripts

A script plays clients against a server, which runs after each action until
nothing is left to be handled. That it comes to an end is seen from the *work*
that is left: every turn takes some of it away. What a script reports is thus
about states that its server becomes by handling what waits, and all that holds
of these holds of the script. A script for a table of clients does to it what
the loop of the server does.

* `Loopback.work_lt`: a turn takes some of the work away;
* `Loopback.turn?_settle`: a server that has settled has nothing to handle;
* `Loopback.session_reports`: all reports of a script are of settled states of
  its server;
* `TableScript.exists_operateAll`: what a script does to a table.
-/

namespace SnmpAgent

/-! ## Streams -/

namespace Stream

variable {s : Stream} {c : Client} {t : Transfer}

/-- An attempt to transfer octets fails, or writes to a client that waits to be
    written to, or reads octets that wait, no more than there is space for. -/
theorem transfer?_cases (h : s.transfer? c = some t) :
    t = .failed ∨ c.direction = .writing ∧ t = .written ∨
      ∃ octets, t = .read octets ∧ octets <+: s.waiting ∧ octets.length ≤ c.frame.spare := by
  rw [transfer?] at h
  split at h
  · cases h
    exact .inl rfl
  · cases h
    exact .inr (.inl ⟨‹_›, rfl⟩)
  · split_ifs at h <;> cases h
    · exact .inr (.inr ⟨[], rfl, List.nil_prefix, Nat.zero_le _⟩)
    · exact .inr (.inr ⟨_, rfl, List.take_prefix _ _, List.length_take_le _ _⟩)

@[simp] theorem peer_after (s : Stream) (t : Transfer) : (s.after t).peer = s.peer := by
  cases t <;> rfl

/-- A transfer leaves no more turns than there were, and fewer by two for each
    octet that is read. -/
theorem work_after_le (s : Stream) (t : Transfer) : (s.after t).work ≤ s.work := by
  cases t with
  | read octets =>
    simp only [after, work, List.length_drop]
    omega
  | written | pending | failed => exact le_rfl

theorem work_after_read {octets : List UInt8} (h : octets <+: s.waiting) :
    (s.after (.read octets)).work + 2 * octets.length = s.work := by
  have := h.length_le
  simp only [after, work, List.length_drop]
  omega

/-- What one of some streams loses, all of them lose, if none of the others
    gains. -/
theorem sum_work_map_add_le {streams : List Stream} {change : Stream → Stream} {k : Nat}
    (hchange : ∀ s, (change s).work ≤ s.work) (hmem : s ∈ streams)
    (hs : (change s).work + k ≤ s.work) :
    ((streams.map change).map work).sum + k ≤ (streams.map work).sum := by
  obtain ⟨before, after, rfl⟩ := List.append_of_mem hmem
  have hbefore := List.sum_le_sum (l := before) fun s _ => hchange s
  have hafter := List.sum_le_sum (l := after) fun s _ => hchange s
  simp only [List.map_append, List.map_cons, List.map_map, List.sum_append, List.sum_cons,
    Function.comp_def]
  omega

/-- Fewer streams have fewer turns. -/
theorem sum_work_le {streams streams' : List Stream} (h : streams'.Sublist streams) :
    (streams'.map work).sum ≤ (streams.map work).sum :=
  (h.map work).sum_le_sum fun _ _ => Nat.zero_le _

theorem sum_work_filter_lt {streams : List Stream} (keep : Stream → Bool) (hmem : s ∈ streams)
    (hs : keep s = false) : ((streams.filter keep).map work).sum < (streams.map work).sum := by
  obtain ⟨before, after, rfl⟩ := List.append_of_mem hmem
  have hbefore := sum_work_le (List.filter_sublist (p := keep) (l := before))
  have hafter := sum_work_le (List.filter_sublist (p := keep) (l := after))
  have hpos : 0 < s.work := Nat.succ_pos _
  simp only [List.filter_append, List.filter_cons, hs, List.map_append, List.map_cons,
    List.sum_append, List.sum_cons, Bool.false_eq_true, if_false]
  omega

end Stream

/-! ## What becomes of clients -/

/-- A client keeps its peer in whatever comes of its octets. -/
theorem Client.peer_receive (c : Client) (now : Nat) (octets : List UInt8) :
    (c.receive now octets).1.peer = c.peer := by
  rw [receive]
  dsimp only
  split <;> rfl

theorem Client.peer_answer (c : Client) (result : Except AgentError (Option (List UInt8))) :
    (c.answer result).peer = c.peer := by
  unfold answer
  split
  · split <;> rfl
  · rfl
  · rfl

namespace Server

variable {s : Server} {i : Nat} {c d : Client} {t : Transfer}

theorem exists_receive (s : Server) (host : Host) (now i : Nat) (c : Client) (octets : List UInt8) :
    ∃ d : Client, (s.receive host now i c octets).clients = s.clients.set i d ∧
      d.peer = c.peer := by
  have hpeer := c.peer_receive now octets
  rw [receive]
  split <;> rename_i heq <;> rw [heq] at hpeer
  · exact ⟨_, rfl, hpeer⟩
  · exact ⟨_, rfl, (Client.peer_answer _ _).trans hpeer⟩

/-- A transfer closes the client, or ends a reply to it, or reads some of its
    octets. -/
theorem exists_serve (host : Host) (now : Nat) (hget : s.clients.get? i = some c)
    (ht : t ≠ .pending) :
    ∃ d : Client, (s.serve host now i t).1.clients = (s.clients.served i).set i d ∧
      d.peer = c.peer ∧ (d.closed = true ∨ c.direction = .writing ∧ d.direction = .reading ∨
        ∃ octets, octets ≠ [] ∧ t = .read octets) := by
  rw [serve, hget]
  dsimp only
  unfold transfer
  split
  · split_ifs with hdone
    · exact ⟨c.close, rfl, rfl, .inl rfl⟩
    · obtain ⟨d, hd, hpeer⟩ := exists_receive { s with clients := s.clients.served i } host now i c _
      refine ⟨d, hd, hpeer, .inr (.inr ⟨_, fun hnil => hdone (.inl ?_), rfl⟩)⟩
      rw [hnil]
      rfl
  · exact ⟨c.sent now, rfl, rfl, .inr (.inl ⟨‹_›, rfl⟩)⟩
  · exact absurd rfl ht
  · exact ⟨c.close, rfl, rfl, .inl rfl⟩

/-- Clients that are done with are no more written to. -/
theorem countP_step_le (s : Server) (host : Host) (now : Nat) (e : Event) (p : Client → Bool) :
    (s.step host now e).1.clients.clients.countP p ≤
      (s.handle host now e).1.clients.clients.countP p :=
  List.filter_sublist.countP_le

/-- A new client is read from. -/
theorem countP_accept_le (s : Server) (now : Nat) (peer : SocketAddr) :
    (s.accept now peer).1.clients.clients.countP (·.direction = .writing) ≤
      s.clients.clients.countP (·.direction = .writing) := by
  have hle := s.clients.staying_sublist.countP_le (p := (·.direction = .writing))
  rw [accept, ClientTable.insert]
  dsimp only
  split_ifs
  · exact hle
  · rw [List.countP_append]
    exact hle

/-- How many clients are written to, before and after one has been served. -/
theorem countP_step_service (host : Host) (now : Nat) (hget : s.clients.get? i = some c)
    (hopen : c.closed = false)
    (hd : (s.serve host now i t).1.clients = (s.clients.served i).set i d) :
    (s.step host now (.service i t)).1.clients.clients.countP (·.direction = .writing) +
        (if c.direction = .writing then 1 else 0) ≤
      s.clients.clients.countP (·.direction = .writing) +
        if d.closed = false ∧ d.direction = .writing then 1 else 0 := by
  obtain ⟨hi, hc⟩ := List.getElem?_eq_some_iff.1 hget
  have hmem : c ∈ s.clients.clients := List.mem_of_getElem? hget
  have hstep : (s.step host now (.service i t)).1.clients.clients =
      (s.clients.clients.set i d).filter (!·.closed) :=
    congrArg (·.reap.clients) hd
  have hle : s.clients.clients.countP (fun c => c.direction = .writing && !c.closed) ≤
      s.clients.clients.countP (·.direction = .writing) :=
    List.countP_mono_left fun c _ h => (Bool.and_eq_true_iff.1 h).1
  have hpos : c.direction = .writing →
      0 < s.clients.clients.countP (fun c => c.direction = .writing && !c.closed) := fun hwriting =>
    List.countP_pos_iff.2 ⟨c, hmem, by simp [hwriting, hopen]⟩
  rw [hstep, List.countP_filter, List.countP_set hi]
  rw [hc]
  simp only [hopen, Bool.not_false, Bool.and_true, decide_eq_true_eq, Bool.and_eq_true,
    Bool.not_eq_true', and_comm (a := d.direction = .writing)]
  split_ifs at * <;> grind

/-- A client that is closed when it is served is disconnected. -/
theorem disconnect_mem_step (host : Host) (now : Nat) (hget : s.clients.get? i = some c)
    (hd : (s.serve host now i t).1.clients = (s.clients.served i).set i d)
    (hclosed : d.closed = true) : .disconnect d.peer ∈ (s.step host now (.service i t)).2 := by
  obtain ⟨hi, -⟩ := List.getElem?_eq_some_iff.1 hget
  have hmem : d ∈ (s.serve host now i t).1.clients.clients := by
    rw [hd]
    exact List.mem_set hi d
  exact List.mem_append_right _ (List.mem_map.2 ⟨d, List.mem_filter.2 ⟨hmem, hclosed⟩, rfl⟩)

end Server

/-! ## The work that is left -/

namespace Loopback

variable {l l' : Loopback} {notices : List Notice}

/-- The effects of a server take the streams of the clients that it disconnects
    out of the network, and nothing else. -/
theorem foldl_give (effects : List Effect) (l : Loopback) :
    effects.foldl give l =
      { l with streams := l.streams.filter fun s => .disconnect s.peer ∉ effects } := by
  induction effects generalizing l with
  | nil => simp
  | cons e effects ih =>
    rw [List.foldl_cons, ih]
    cases e <;> simp [give, List.filter_filter, Bool.and_comm]

/-- The network and the server after an event has been handled. -/
def handled (l : Loopback) (e : Event) : Loopback :=
  { l.take e with
    server := (l.server.step l.host l.now e).1
    streams := (l.take e).streams.filter fun s =>
      .disconnect s.peer ∉ (l.server.step l.host l.now e).2 }

/-- A turn handles something that waits. -/
theorem of_turn? (h : l.turn? = some (l', notices)) :
    ∃ e, l.server.MayHandle l.waiting e ∧ l' = l.handled e := by
  rw [turn?] at h
  split_ifs at h
  obtain ⟨e, hchosen, h⟩ := Option.map_eq_some_iff.1 h
  cases h
  exact ⟨e, Server.mayHandle_of_choose hchosen, foldl_give _ _⟩

/-- There is no turn if the server has been told to stop, or nothing waits that
    it may handle. -/
theorem turn?_eq_none_iff : l.turn? = none ↔
    l.cancelled = true ∨ ∀ e, ¬l.server.MayHandle l.waiting e := by
  rw [turn?]
  split_ifs with hcancelled
  · exact iff_of_true rfl (.inl hcancelled)
  · rw [Option.map_eq_none_iff, Server.choose_eq_none_iff, or_iff_right hcancelled]

/-- What waits for a client is on its stream. -/
theorem exists_stream {c : Client} {t : Transfer} (h : l.waiting.transfer? c = some t) :
    ∃ s ∈ l.streams, s.peer = c.peer ∧ s.transfer? c = some t := by
  obtain ⟨s, hs, ht⟩ := Option.bind_eq_some_iff.1 h
  rw [stream?] at hs
  exact ⟨s, List.mem_of_find?_eq_some hs, by simpa using List.find?_some hs, ht⟩

theorem work_eq (l : Loopback) : l.work =
    (l.now + 1 - l.timer.due) + l.datagrams.length + l.connecting.length +
      (l.streams.map Stream.work).sum +
      l.server.clients.clients.countP (·.direction = .writing) := by
  rw [work, List.sum_eq_foldr, List.foldr_map]

/-- Handling an event takes no more from the streams than their transfers and
    their ends do. -/
theorem sum_work_handled_le (l : Loopback) (e : Event) :
    ((l.handled e).streams.map Stream.work).sum ≤ ((l.take e).streams.map Stream.work).sum :=
  Stream.sum_work_le List.filter_sublist

/-- What the stream of a client loses in a transfer, all streams lose. -/
theorem sum_work_take_add_le {i k : Nat} {c : Client} {t : Transfer} {s : Stream}
    (hget : l.server.clients.get? i = some c) (hs : s ∈ l.streams) (hpeer : s.peer = c.peer)
    (hk : (s.after t).work + k ≤ s.work) :
    ((l.take (.service i t)).streams.map Stream.work).sum + k ≤
      (l.streams.map Stream.work).sum := by
  rw [take, hget]
  refine Stream.sum_work_map_add_le (fun s => ?_) hs (by rwa [if_pos hpeer])
  split_ifs
  · exact s.work_after_le t
  · exact le_rfl

/-- The stream of a client that is disconnected is lost. -/
theorem sum_work_handled_lt {i : Nat} {c : Client} {t : Transfer} {s : Stream}
    (hget : l.server.clients.get? i = some c) (hs : s ∈ l.streams) (hpeer : s.peer = c.peer)
    (hlost : .disconnect c.peer ∈ (l.server.step l.host l.now (.service i t)).2) :
    ((l.handled (.service i t)).streams.map Stream.work).sum <
      ((l.take (.service i t)).streams.map Stream.work).sum := by
  have hmem : s.after t ∈ (l.take (.service i t)).streams := by
    rw [take, hget]
    exact List.mem_map.2 ⟨s, hs, if_pos hpeer⟩
  refine Stream.sum_work_filter_lt _ hmem (decide_eq_false (not_not_intro ?_))
  rwa [Stream.peer_after, hpeer]

/-- A transfer takes a turn of its client away: the client is disconnected, or
    it is written to no more, or octets are read. -/
theorem work_handled_service_lt {i : Nat} {c : Client} {t : Transfer}
    (hget : l.server.clients.get? i = some c) (hopen : c.closed = false)
    (hwaits : l.waiting.transfer? c = some t) : (l.handled (.service i t)).work < l.work := by
  obtain ⟨s, hs, hpeer, ht⟩ := exists_stream hwaits
  replace ht := Stream.transfer?_cases ht
  have hpending : t ≠ .pending := by
    rintro rfl
    simp at ht
  obtain ⟨d, hd, hdpeer, hbecomes⟩ := Server.exists_serve l.host l.now hget hpending
  have hcount := Server.countP_step_service l.host l.now hget hopen hd
  have hkept := l.sum_work_handled_le (.service i t)
  have htaken := sum_work_take_add_le (k := 0) hget hs hpeer (s.work_after_le t)
  have hserver : (l.handled (.service i t)).server =
    (l.server.step l.host l.now (.service i t)).1 := rfl
  have hrest : (l.handled (.service i t)).now + 1 - (l.handled (.service i t)).timer.due +
      (l.handled (.service i t)).datagrams.length + (l.handled (.service i t)).connecting.length =
      l.now + 1 - l.timer.due + l.datagrams.length + l.connecting.length := by
    rw [handled, take, hget]
  rw [work_eq, work_eq, hserver, hrest]
  rcases hbecomes with hclosed | ⟨hwriting, hreading⟩ | ⟨octets, hne, rfl⟩
  · -- The client is disconnected, and its stream is lost.
    have hlost := Server.disconnect_mem_step l.host l.now hget hd hclosed
    have hlt := sum_work_handled_lt hget hs hpeer (hdpeer ▸ hlost)
    simp only [hclosed, Bool.true_eq_false, false_and, if_false] at hcount
    omega
  · simp only [hwriting, hreading, if_true, reduceCtorEq, and_false, if_false] at hcount
    omega
  · -- Two turns are gone for each octet, one of which may be needed to write the reply.
    obtain ⟨hread, -⟩ : octets <+: s.waiting ∧ octets.length ≤ c.frame.spare := by simpa using ht
    have hlength : 0 < octets.length := List.length_pos_iff.2 hne
    have hloss : (s.after (.read octets)).work + 2 ≤ s.work := by
      rw [← Stream.work_after_read hread]
      omega
    have hall := sum_work_take_add_le hget hs hpeer hloss
    split_ifs at hcount <;> omega

/-- A turn takes some of the work away. -/
theorem work_lt (h : l.turn? = some (l', notices)) : l'.work < l.work := by
  obtain ⟨e, he, rfl⟩ := of_turn? h
  have hstep := l.server.countP_step_le l.host l.now e (·.direction = .writing)
  have hkept := l.sum_work_handled_le e
  cases he with
  | tick htick =>
    have hdue := l.timer.due_lt_due_tick l.now
    have hnow : l.timer.due ≤ l.now := of_decide_eq_true htick
    have hclients : (l.server.handle l.host l.now .tick).1.clients = l.server.clients := rfl
    rw [hclients] at hstep
    rw [work_eq, work_eq]
    dsimp only [handled, take] at hkept ⊢
    omega
  | @datagram packet peer hwaits =>
    have hlength : l.datagrams.tail.length + 1 = l.datagrams.length :=
      List.length_tail_add_one _ (List.length_pos_of_mem (List.mem_of_head? hwaits))
    have hclients : (l.server.handle l.host l.now (.datagram packet peer)).1.clients =
      l.server.clients := l.server.clients_handleDatagram l.host packet peer
    rw [hclients] at hstep
    rw [work_eq, work_eq]
    dsimp only [handled, take] at hkept ⊢
    omega
  | @connection peer hwaits =>
    have hlength : l.connecting.tail.length + 1 = l.connecting.length :=
      List.length_tail_add_one _ (List.length_pos_of_mem (List.mem_of_head? hwaits))
    have haccept := l.server.countP_accept_le l.now peer
    rw [work_eq, work_eq]
    dsimp only [handled, take, Server.handle] at hstep hkept ⊢
    omega
  | @service i c t hready hget ht =>
    obtain ⟨_, hget', hopen, -⟩ := (Server.MayHandle.service hready hget ht).exists_get?
    cases hget.symm.trans hget'
    exact work_handled_service_lt hget hopen ht

/-- Enough fuel for all the work that is left lets the server run until there is
    no turn. -/
theorem turn?_settleWithin (fuel : Nat) (h : l.work ≤ fuel) :
    (settleWithin fuel l).1.turn? = none := by
  induction fuel generalizing l with
  | zero =>
    refine Option.eq_none_iff_forall_ne_some.2 fun next hnext => ?_
    have hlt : next.1.work < l.work := work_lt hnext
    omega
  | succ fuel ih =>
    rw [settleWithin]
    split
    · assumption
    next l' notices hnext => exact ih (Nat.le_of_lt_succ ((work_lt hnext).trans_le h))

/-- More fuel makes no difference. -/
theorem settleWithin_eq {fuel fuel' : Nat} (h : l.work ≤ fuel) (h' : l.work ≤ fuel') :
    settleWithin fuel l = settleWithin fuel' l := by
  -- Where fuel runs out, no work is left, and so there is no turn.
  induction fuel generalizing l fuel' with
  | zero =>
    have hnone : l.turn? = none := turn?_settleWithin 0 h
    cases fuel' with
    | zero => rfl
    | succ fuel' => rw [settleWithin, settleWithin, hnone]
  | succ fuel ih =>
    cases fuel' with
    | zero =>
      have hnone : l.turn? = none := turn?_settleWithin 0 h'
      rw [settleWithin, settleWithin, hnone]
    | succ fuel' =>
      rw [settleWithin, settleWithin]
      cases hnext : l.turn? with
      | none => rfl
      | some next =>
        have hlt : next.1.work < l.work := work_lt hnext
        have hsame : settleWithin fuel next.1 = settleWithin fuel' next.1 :=
          ih (by omega) (by omega)
        dsimp only
        rw [hsame]

/-- A server that has settled was told to stop, or has nothing left to handle. -/
theorem turn?_settle (l : Loopback) : l.settle.1.turn? = none := turn?_settleWithin _ le_rfl

/-! ## What a script reports -/

/-- No stream gives more octets than there is space for. -/
theorem fits_waiting (l : Loopback) (c : Client) (octets : List UInt8)
    (h : l.waiting.transfer? c = some (.read octets)) : octets.length ≤ c.frame.spare := by
  obtain ⟨s, -, -, ht⟩ := exists_stream h
  have hread := Stream.transfer?_cases ht
  simp only [reduceCtorEq, and_false, false_or, Transfer.read.injEq, exists_eq_left'] at hread
  exact hread.2

/-- A server that settles handles what waits. -/
theorem becomes_settleWithin {s : Server} {fuel : Nat} (h : s.Becomes l.server) :
    s.Becomes (settleWithin fuel l).1.server := by
  induction fuel generalizing l with
  | zero => exact h
  | succ fuel ih =>
    rw [settleWithin]
    split
    · exact h
    next l' notices hnext =>
      obtain ⟨e, he, rfl⟩ := of_turn? hnext
      exact ih (h.step l.host l.now he l.fits_waiting)

/-- So it does while the clock is moved, and has nothing left to handle
    afterwards. -/
theorem becomes_advance {s : Server} (pieces : List Nat) (h : s.Becomes l.server)
    (hsettled : l.turn? = none) : s.Becomes (l.advance pieces).1.server ∧
      (l.advance pieces).1.turn? = none := by
  induction pieces generalizing l with
  | nil => exact ⟨h, hsettled⟩
  | cons piece pieces ih => exact ih (becomes_settleWithin h) (turn?_settle _)

/-- What clients do changes the network only. -/
theorem server_act {a : Action} (h : l.act a = some l') : l'.server = l.server := by
  have hopen : ∀ {peer : SocketAddr} {l' : Loopback}, l.openSocket? = some (peer, l') →
      l'.server = l.server := by
    intro peer l' h
    rw [openSocket?] at h
    split_ifs at h
    cases h
    rfl
  cases a with
  | datagram | connect =>
    obtain ⟨⟨peer, l''⟩, hsocket, h⟩ := Option.bind_eq_some_iff.1 h
    cases h
    exact (hopen hsocket :)
  | send | sendEnd | close | abort | advance | figures | lookup | cancel =>
    cases h
    rfl

/-- An action makes of the server what it becomes by handling what waits, until
    nothing is left. -/
theorem becomes_perform {s : Server} {a : Action} {r : Report} (h : s.Becomes l.server)
    (hperform : l.perform a = some (l', r)) :
    s.Becomes l'.server ∧ l'.turn? = none ∧ r.connections = l'.connections := by
  obtain ⟨acted, hacted, hperform⟩ := Option.bind_eq_some_iff.1 hperform
  cases hperform
  rw [← server_act hacted] at h
  obtain ⟨hserver, hsettled⟩ := becomes_advance a.pieces
    (becomes_settleWithin (l := { acted with timer := acted.timer.reset acted.now }) h)
    (turn?_settle _)
  exact ⟨hserver, hsettled, rfl⟩

/-- Every report of a script is of a state that its server has become by
    handling what waits, and in which nothing is left to be handled. -/
theorem becomes_session {s : Server} {actions : List Action} {reports : List Report}
    (h : s.Becomes l.server) (hsession : l.session actions = some reports) :
    ∀ r ∈ reports, ∃ l' : Loopback, s.Becomes l'.server ∧ l'.turn? = none ∧
      r.connections = l'.connections := by
  induction actions generalizing l reports with
  | nil =>
    cases hsession
    exact List.forall_mem_nil _
  | cons a actions ih =>
    obtain ⟨⟨l', r⟩, hperform, hsession⟩ := Option.bind_eq_some_iff.1 hsession
    obtain ⟨others, hothers, hsession⟩ := Option.bind_eq_some_iff.1 hsession
    cases hsession
    have hfirst := becomes_perform h hperform
    exact List.forall_mem_cons.2 ⟨⟨l', hfirst⟩, ih hfirst.1 hothers⟩

/-- A script begins with a server without clients. -/
theorem clients_of_start {machine : Machine} {config : AgentConfig} {figures : Snapshot}
    (h : start machine config figures = .ok l) : l.server.clients = .empty maxClients := by
  obtain ⟨server, hbind, h⟩ := except_bind_eq_ok.1 h
  obtain ⟨timer, -, h⟩ := except_bind_eq_ok.1 h
  cases h
  obtain ⟨-, -, hbind⟩ := except_bind_eq_ok.1 hbind
  obtain ⟨store, -, hbind⟩ := except_bind_eq_ok.1 hbind
  cases hbind
  rfl

/-- What a script reports of its clients: they are no more than there is room
    for, and each of them was accepted and then served in turns, until nothing
    was left to be handled. -/
theorem session_reports {machine : Machine} {config : AgentConfig} {figures : Snapshot}
    {actions : List Action} {reports : List Report} (hstart : start machine config figures = .ok l)
    (h : l.session actions = some reports) : ∀ r ∈ reports, ∃ l' : Loopback,
      r.connections = l'.connections ∧ l'.turn? = none ∧ r.connections.length ≤ maxClients ∧
      ∀ c ∈ l'.server.clients.clients, ∃ peer now turns,
        Served (Client.accepted peer now) turns c := by
  intro r hr
  obtain ⟨l', hbecomes, hsettled, hconnections⟩ := becomes_session .refl h r hr
  have hempty := clients_of_start hstart
  obtain ⟨hsound, hcapacity⟩ := hbecomes.clients_sound (by rw [hempty]; exact ClientTable.sound_empty _)
  refine ⟨l', hconnections, hsettled, ?_, hbecomes.exists_served (by rw [hempty]; rfl)⟩
  rw [hconnections, connections, List.length_map]
  rw [hempty] at hcapacity
  exact hsound.length_le.trans_eq hcapacity

end Loopback

/-! ## Scripts for a table -/

namespace TableScript

variable {t t' : TableScript}

/-- What an action does to the table. -/
def operations (t : TableScript) : Action → List ClientTable.Operation
  | .insert peer lastActivity => [.insert (Client.accepted peer lastActivity)]
  | .ready => [.poll t.isReady]
  | .reap => [.reap]
  | .data _ | .get _ => []

theorem table_of_perform {a : Action} {answer : Answer} (h : t.perform a = some (answer, t')) :
    t'.table = t.table.operateAll (t.operations a) := by
  cases a with
  | insert peer lastActivity =>
    rw [perform] at h
    split_ifs at h
    cases h
    rfl
  | ready =>
    rw [operations, ClientTable.operateAll, List.foldl_cons, List.foldl_nil, ClientTable.operate]
    rw [perform] at h
    cases hready : t.table.ready? t.isReady <;> rw [hready] at h <;> cases h <;> rfl
  | data | get | reap =>
    cases h
    rfl

/-- The table and its streams after some actions, unless one needs a socket that
    cannot be opened. -/
def after? (t : TableScript) (actions : List Action) : Option TableScript :=
  actions.foldlM (fun t a => (t.perform a).map (·.2)) t

/-- A script does to a table what the loop of a server does to it. -/
theorem exists_operateAll {actions : List Action} (h : t.after? actions = some t') :
    ∃ ops, t'.table = t.table.operateAll ops := by
  induction actions generalizing t with
  | nil =>
    cases h
    exact ⟨[], rfl⟩
  | cons a actions ih =>
    rw [after?, List.foldlM_cons] at h
    obtain ⟨next, hnext, h⟩ := Option.bind_eq_some_iff.1 h
    obtain ⟨⟨answer, _⟩, hperform, rfl⟩ := Option.map_eq_some_iff.1 hnext
    obtain ⟨ops, hops⟩ := ih h
    refine ⟨t.operations a ++ ops, ?_⟩
    rw [hops, table_of_perform hperform, ClientTable.operateAll, ClientTable.operateAll,
      ClientTable.operateAll, List.foldl_append]

/-- So its table keeps its capacity and is never overfull. -/
theorem sound_after {machine : Machine} {capacity : Nat} {actions : List Action}
    (h : (start machine capacity).after? actions = some t') :
    t'.table.Sound ∧ t'.table.capacity = capacity := by
  obtain ⟨ops, hops⟩ := exists_operateAll h
  rw [hops]
  exact ⟨(ClientTable.sound_empty capacity).operateAll ops, ClientTable.capacity_operateAll _ ops⟩

/-- If a client is ready, a ready one is answered that the search comes to no
    later. -/
theorem exists_position (h : t.table.Sound) {j : Nat}
    (hwaits : t.table.Waits j (.poll t.isReady)) : ∃ z, (z = j ∨
      ClientTable.Precedes t.table.next z j) ∧
      t.perform .ready = some (.position (some z), { t with table := t.table.served z }) := by
  have hj := hwaits.lt_length
  have hnext : t.table.next < t.table.length := h.next_lt.elim id fun hzero => by omega
  obtain ⟨c, hget, hopen, hready⟩ := hwaits
  obtain ⟨z, hz, -, hfirst⟩ := ClientTable.exists_ready? hnext hget hopen hready
  exact ⟨z, hfirst, by rw [perform, hz]⟩

end TableScript

end SnmpAgent
