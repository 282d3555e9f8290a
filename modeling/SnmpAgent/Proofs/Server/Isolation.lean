import SnmpAgent.Proofs.Server.Schedules
import SnmpAgent.Proofs.Server.Views

/-!
# Clients do not interfere

All clients of a server share its variables, its table, and its one loop. With a
host whose figures never change, a client sees nothing of this. Its exchange is
decided by what comes in from it, whatever else is handled before, between and
after its turns: packets and refreshes change nothing that a reply depends on,
and other clients at most shift the position at which it is served.

* `Server.Continues.process_eq`: what comes of a packet never changes;
* `View.Sound.runs`: a view of a client is one of its exchange;
* `Server.Follows.scheduled`: what happens to the client is told by what came
  in from it;
* `Server.Follows.isolated`: two runs compared.
-/

namespace SnmpAgent

/-! ## What comes of requests -/

namespace Server

variable {s s' : Server}

/-- What comes of a packet, if the figures of the host never change. -/
def answerTo (s : Server) (figures : Snapshot) (peer : SocketAddr) (packet : List UInt8) :
    Except AgentError (Option (List UInt8)) :=
  Engine.resultOf s.config s.store.blank (figures.align s.config.interfaces s.config.disks) packet
    peer

/-- Whatever has happened, that is what comes of the packet. -/
theorem Continues.process_eq (h : s.Continues s') (figures : Snapshot) (peer : SocketAddr)
    (packet : List UInt8) :
    (s'.process (Host.static figures) packet peer).2 = s.answerTo figures peer packet := by
  rw [answerTo, ← h.config, ← h.store.blank]
  exact (Engine.process_eq s'.config _ s'.store packet peer).1

/-- The server of a configuration has its variables, and room for clients. -/
theorem store_of_bind {config : AgentConfig} {host : Host}
    (h : bind config host = .ok s) : s.config = config ∧ 0 < s.clients.capacity ∧
      MibStore.build (standardDefinitions config (host 0 config.interfaces config.disks))
        (host 0 config.interfaces config.disks) maxValues = .ok s.store := by
  obtain ⟨-, -, h⟩ := except_bind_eq_ok.1 h
  obtain ⟨store, hstore, h⟩ := except_bind_eq_ok.1 h
  cases h
  exact ⟨rfl, Nat.zero_lt_succ _, hstore⟩

end Server

/-! ## What happens to a client -/

/-- Whether an attempt to transfer octets is of the kind that the client is
    waited for, and if it is one to write a reply, then the whole reply is
    written or the attempt will be made again. -/
def Client.awaits (c : Client) (t : Transfer) : Bool :=
  match c.direction with
  | .reading => t ≠ .written
  | .writing => t = .written ∨ t = .pending

/-- The reply that a client has been given and that is not written yet, if there
    is one. -/
def Client.owed (c : Client) : List (List UInt8) :=
  match c.direction with
  | .reading => []
  | .writing => [c.frame.filled]

/-- Whether the client of a turn awaits its transfer. -/
def Turn.Succeeds (t : Turn) : Prop := (t.server.clients.get? t.i).all (·.awaits t.transfer)

instance (t : Turn) : Decidable t.Succeeds := inferInstanceAs (Decidable (_ = true))

namespace View

/-- All writes to the client succeed. -/
def Succeeds (v : View) : Prop := ∀ t ∈ v.turns, t.Succeeds

instance (v : View) : Decidable v.Succeeds := inferInstanceAs (Decidable (∀ t ∈ v.turns, _))

/-- What came in from the client. -/
def incoming (v : View) : List Transfer := (v.turns.map (·.transfer)).filter (·.isIncoming)

/-- The steps of the client: all turns in which anything was transferred. -/
def steps (v : View) : List Transfer := (v.turns.map (·.transfer)).filter (·.isEffective)

/-- What was written to the client. -/
def written (v : View) : List Effect := v.turns.flatMap (·.outcome.2)

/-- The reply that the client has been given and that is not written yet, if
    there is one. -/
def owed (v : View) : List (List UInt8) :=
  match v.place with
  | .inside i => (v.server.clients.get? i).elim [] (·.owed)
  | .outside => []
  | .gone => []

/-- A client that is gone is owed nothing. -/
theorem owed_of_gone {v : View} (h : v.place = .gone) : v.owed = [] := by
  rw [owed, h]

end View

namespace Client.Stands

variable {c : Client} {x : Exchange}

/-- An open client is owed the reply that its exchange is about to write. -/
theorem owed_eq (h : c.Stands x) (hopen : c.closed = false) : c.owed = x.unwritten := by
  cases h with
  | receiving _ hdirection => rw [Client.owed, hdirection]; rfl
  | replying _ hdirection _ hfilled => rw [Client.owed, hdirection]; exact congrArg ([·]) hfilled
  | ended hclosed => rw [hclosed] at hopen; cases hopen

/-- The exchange permits what an open client awaits. -/
theorem permits (h : c.Stands x) (hopen : c.closed = false) {t : Transfer}
    (hawaits : c.awaits t) : x.Permits t := by
  cases h with
  | receiving _ hdirection => simpa [Client.awaits, Exchange.Permits, hdirection] using hawaits
  | replying _ hdirection => simpa [Client.awaits, Exchange.Permits, hdirection] using hawaits
  | ended hclosed => rw [hclosed] at hopen; cases hopen

/-- A client that is done with stands where the exchange has ended. -/
theorem eq_ended (h : c.Stands x) (hclosed : c.closed = true) : x = .ended := by
  cases h with
  | receiving hopen | replying hopen => rw [hopen] at hclosed; cases hclosed
  | ended => rfl

end Client.Stands

/-- If the same comes of every packet at any time, the turns of a client are a
    run of its exchange, and what is written to it is what this writes. -/
theorem Served.runs {c d : Client} {x : Exchange} {turns : List Turn} {peer : SocketAddr}
    {answer : List UInt8 → Except AgentError (Option (List UInt8))} (h : Served c turns d)
    (hc : c.Stands x) (hpeer : c.peer = peer) (hanswer : ∀ t ∈ turns, t.process peer = answer)
    (hsucceed : ∀ t ∈ turns, t.Succeeds) :
    d.Stands (x.run answer (turns.map (·.transfer))) ∧
      x.PermitsAll answer (turns.map (·.transfer)) ∧
      turns.flatMap (·.outcome.2) =
        (x.writes answer (turns.map (·.transfer))).map (.reply · peer) := by
  induction h generalizing x with
  | nil => exact ⟨hc, trivial, rfl⟩
  | @cons c c' d t turns ht hget h ih =>
    subst hpeer
    obtain ⟨hc', hpeer', houtcome⟩ := ht.follows hc hget
    rw [hanswer t List.mem_cons_self] at hc'
    obtain ⟨hd, hpermits, hwritten⟩ := ih hc' hpeer'
      (fun t' ht' => hanswer t' (List.mem_cons_of_mem t ht'))
      (fun t' ht' => hsucceed t' (List.mem_cons_of_mem t ht'))
    have hawaits := hsucceed t List.mem_cons_self
    rw [Turn.Succeeds, ht.get, Option.all_some] at hawaits
    refine ⟨hd, ⟨hc.permits ht.isOpen hawaits, hpermits⟩, ?_⟩
    rw [List.flatMap_cons, houtcome, hwritten, List.map_cons, Exchange.writes, List.map_append]

/-- So the view of a client is one of its exchange, which tells what the client
    is owed and whether it has been disconnected. -/
theorem View.Sound.runs {v : View} {peer : SocketAddr}
    {answer : List UInt8 → Except AgentError (Option (List UInt8))} (h : v.Sound peer)
    (hanswer : ∀ t ∈ v.turns, t.process peer = answer) (hsucceed : v.Succeeds) :
    (Exchange.receiving []).PermitsAll answer (v.turns.map (·.transfer)) ∧
      v.written = ((Exchange.receiving []).writes answer
        (v.turns.map (·.transfer))).map (.reply · peer) ∧
      v.owed = ((Exchange.receiving []).run answer (v.turns.map (·.transfer))).unwritten ∧
      (v.place = .gone ↔
        (Exchange.receiving []).run answer (v.turns.map (·.transfer)) = .ended) := by
  cases h with
  | outside s => exact ⟨trivial, rfl, rfl, by simp [Exchange.run]⟩
  | @inside s i start turns c hget hopen hserved =>
    obtain ⟨hstands, hpermits, hwritten⟩ :=
      hserved.runs (Client.accepted_stands peer start) rfl hanswer hsucceed
    -- An exchange that has ended leaves the client closed.
    have hgoes : (Exchange.receiving []).run answer (turns.map (·.transfer)) ≠ .ended := by
      intro hended
      rw [hended] at hstands
      rw [hstands.closed] at hopen
      cases hopen
    refine ⟨hpermits, hwritten, ?_, iff_of_false Place.noConfusion hgoes⟩
    rw [owed]
    dsimp only
    rw [hget]
    exact hstands.owed_eq hopen
  | @gone start turns c s hclosed hserved =>
    obtain ⟨hstands, hpermits, hwritten⟩ :=
      hserved.runs (Client.accepted_stands peer start) rfl hanswer hsucceed
    have hended := hstands.eq_ended hclosed
    exact ⟨hpermits, hwritten, by rw [hended]; rfl, iff_of_true rfl hended⟩

namespace Server.Follows

variable {figures : Snapshot} {peer : SocketAddr} {s : Server} {v : View}

/-- What happens to a client follows the schedule of what came in from it: its
    steps and what is written to it, with the reply that it is owed, and whether
    it has been disconnected. -/
theorem scheduled (h : s.Follows (Host.static figures) peer v)
    (hcapacity : 0 < s.clients.capacity) (hsucceed : v.Succeeds) {schedule : List Transfer}
    (hschedule : schedule =
      (Exchange.receiving []).schedule (s.answerTo figures peer) v.incoming) :
    v.steps ++ v.owed.map (fun _ => .written) = schedule ∧
      v.written ++ v.owed.map (.reply · peer) =
        ((Exchange.receiving []).writes (s.answerTo figures peer) schedule).map (.reply · peer) ∧
      (v.place = .gone ↔
        (Exchange.receiving []).run (s.answerTo figures peer) schedule = .ended) := by
  have hanswer : ∀ t ∈ v.turns, t.process peer = s.answerTo figures peer := by
    intro t ht
    obtain ⟨hcontinues, hhost⟩ := h.continues_of_mem t ht
    funext packet
    rw [Turn.process, hhost]
    exact hcontinues.process_eq figures peer packet
  obtain ⟨hpermits, hwritten, howed, hgone⟩ := (h.sound hcapacity).runs hanswer hsucceed
  subst hschedule
  refine ⟨?_, ?_, ?_⟩
  · rw [howed, View.incoming, Exchange.schedule_incoming hpermits]
    rfl
  · rw [howed, hwritten, View.incoming, Exchange.writes_schedule hpermits, List.map_append]
  · rw [View.incoming, Exchange.run_schedule hpermits, Exchange.settled_eq_ended_iff, hgone]

/-! ## Two runs compared -/

/-- Clients do not interfere. In two runs of an agent with a host whose figures
    never change, in which the same comes in from one client, its writes succeed
    and it is not evicted, the same steps happen to the client and the same is
    written to it, whatever else is handled in between, except that one of the
    runs may be about to write the reply that the other one has written. The
    client is disconnected in both runs or in none, and with the same step. -/
theorem isolated {config : AgentConfig} {v₁ v₂ : View}
    (hbind : Server.bind config (Host.static figures) = .ok s)
    (h₁ : s.Follows (Host.static figures) peer v₁) (h₂ : s.Follows (Host.static figures) peer v₂)
    (hsucceed₁ : v₁.Succeeds) (hsucceed₂ : v₂.Succeeds) (hincoming : v₁.incoming = v₂.incoming) :
    v₁.written ++ v₁.owed.map (.reply · peer) = v₂.written ++ v₂.owed.map (.reply · peer) ∧
      v₁.steps ++ v₁.owed.map (fun _ => .written) = v₂.steps ++ v₂.owed.map (fun _ => .written) ∧
      (v₁.place = .gone ↔ v₂.place = .gone) ∧ (v₁.place = .gone → v₁.steps = v₂.steps) := by
  obtain ⟨-, hcapacity, -⟩ := store_of_bind hbind
  obtain ⟨hsteps₁, hwritten₁, hgone₁⟩ := h₁.scheduled hcapacity hsucceed₁ rfl
  obtain ⟨hsteps₂, hwritten₂, hgone₂⟩ := h₂.scheduled hcapacity hsucceed₂ rfl
  rw [← hincoming] at hsteps₂ hwritten₂ hgone₂
  have hsteps := hsteps₁.trans hsteps₂.symm
  have hgone := hgone₁.trans hgone₂.symm
  refine ⟨hwritten₁.trans hwritten₂.symm, hsteps, hgone, fun hgone₁ => ?_⟩
  rw [View.owed_of_gone hgone₁, View.owed_of_gone (hgone.1 hgone₁)] at hsteps
  simpa only [List.map_nil, List.append_nil] using hsteps

end Server.Follows

/-- A peer connects. -/
def Waiting.connecting (peer : SocketAddr) : Waiting := ⟨false, none, some peer, fun _ => none⟩

/-- The client of a peer is ready for a transfer. -/
def Waiting.ready (peer : SocketAddr) (t : Transfer) : Waiting :=
  ⟨false, none, none, fun c => if c.peer = peer then some t else none⟩

/-- A client connects, sends a request for the uptime of the agent in two
    pieces, is sent the reply, and closes its stream. -/
def uptimeAlone (peer : SocketAddr) : List (Nat × Waiting) :=
  [(0, .connecting peer), (0, .ready peer (.read (Engine.uptimeRequest.take 20))),
    (0, .ready peer (.read (Engine.uptimeRequest.drop 20))), (0, .ready peer .written),
    (0, .ready peer (.read []))]

/-- The same, when another client connects before and leaves meanwhile, a packet
    comes, and it is time for a refresh. -/
def uptimeAmong (peer other : SocketAddr) : List (Nat × Waiting) :=
  [(0, .connecting other), (0, .connecting peer),
    (0, .ready peer (.read (Engine.uptimeRequest.take 20))),
    (0, ⟨false, some (Engine.uptimeRequest, other), none, fun _ => none⟩),
    (0, .ready other (.read [])), (0, .ready peer (.read (Engine.uptimeRequest.drop 20))),
    (1000, ⟨true, none, none, fun _ => none⟩), (1000, .ready peer .pending),
    (1000, .ready peer .written), (1000, .ready peer (.read []))]

/-- The client that was alone and the one that was not are sent the same reply,
    and closed with the same step. -/
theorem Server.Follows.isolated_uptimeRequest : ∃ (s : Server) (v₁ v₂ : View),
    Server.bind {} (Host.static { agentUptime := 300 }) = .ok s ∧
    s.Follows (Host.static { agentUptime := 300 }) (.v4 ⟨127, 0, 0, 1⟩ 40000) v₁ ∧
    s.Follows (Host.static { agentUptime := 300 }) (.v4 ⟨127, 0, 0, 1⟩ 40000) v₂ ∧
    v₁.Succeeds ∧ v₂.Succeeds ∧ v₁.incoming = v₂.incoming ∧
    (v₁.written = [.reply uptimeReply (.v4 ⟨127, 0, 0, 1⟩ 40000)] ∧ v₁.place = .gone ∧
      v₁.turns.map (·.i) = [0, 0, 0, 0] ∧ v₂.turns.map (·.i) = [1, 0, 0, 0, 0]) ∧
    v₁.written ++ v₁.owed.map (.reply · (.v4 ⟨127, 0, 0, 1⟩ 40000)) =
        v₂.written ++ v₂.owed.map (.reply · (.v4 ⟨127, 0, 0, 1⟩ 40000)) ∧
      v₁.steps ++ v₁.owed.map (fun _ => .written) = v₂.steps ++ v₂.owed.map (fun _ => .written) ∧
      (v₁.place = .gone ↔ v₂.place = .gone) ∧ (v₁.place = .gone → v₁.steps = v₂.steps) := by
  have hrun : (do
      let s ← Server.bind {} (Host.static { agentUptime := 300 })
      let run := View.advanceAll? (Host.static { agentUptime := 300 }) (.v4 ⟨127, 0, 0, 1⟩ 40000)
        ⟨s, .outside, []⟩
      return do
        let v₁ ← run (uptimeAlone (.v4 ⟨127, 0, 0, 1⟩ 40000))
        let v₂ ← run (uptimeAmong (.v4 ⟨127, 0, 0, 1⟩ 40000) (.v4 ⟨127, 0, 0, 1⟩ 40001))
        return decide (v₁.Succeeds ∧ v₂.Succeeds ∧ v₁.incoming = v₂.incoming ∧
          v₁.written = [.reply uptimeReply (.v4 ⟨127, 0, 0, 1⟩ 40000)] ∧ v₁.place = .gone ∧
          v₁.turns.map (·.i) = [0, 0, 0, 0] ∧ v₂.turns.map (·.i) = [1, 0, 0, 0, 0]) :
      Except AgentError (Option Bool)) = .ok (some true) := by
    decide +kernel
  obtain ⟨s, hbind, hrun⟩ := except_bind_eq_ok.1 hrun
  obtain ⟨v₁, hv₁, hrun⟩ := Option.bind_eq_some_iff.1 (Except.ok.inj hrun)
  obtain ⟨v₂, hv₂, hrun⟩ := Option.bind_eq_some_iff.1 hrun
  obtain ⟨hsucceed₁, hsucceed₂, hincoming, hseen⟩ := of_decide_eq_true (Option.some.inj hrun)
  have h₁ := Server.Follows.refl.advanceAll hv₁
  have h₂ := Server.Follows.refl.advanceAll hv₂
  exact ⟨s, v₁, v₂, hbind, h₁, h₂, hsucceed₁, hsucceed₂, hincoming, hseen,
    Server.Follows.isolated hbind h₁ h₂ hsucceed₁ hsucceed₂ hincoming⟩

end SnmpAgent
