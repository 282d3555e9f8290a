import SnmpAgent.Proofs.Engine.Sampling
import Mathlib.Data.List.Forall2

/-!
# What rejected requests leave behind

Only a request that asks for variables gets as far as the store. A packet that
is no message or carries the wrong community is turned away before that, and a
request to change a variable, or one that the agent does not answer, needs
none of them. These leave the store as it is and the host alone.

* `Engine.asks`: the requests that ask for variables;
* `Engine.maintains_answer_of_not_asks`: the others do nothing at all;
* `MibStore.SameButSamples`: two stores differ in the elements of metrics only;
* `Engine.process_rejected`: what a packet does to the store and to the host.
-/

namespace SnmpAgent

/-- A packet was turned away: it is no message, or does not carry the community
    asked for. -/
def Outcome.TurnedAway (o : Outcome) : Prop :=
  (∃ e, o.result = .error (.decode e)) ∨ ∃ target, o.result = .error (.invalidCommunity target)

namespace MibStore

/-- Two entries differ in no more than the element, and that only if there is a
    metric behind it. -/
structure SameEntry (p p' : Oid × Entry) : Prop where
  name : p'.1 = p.1
  tag : p'.2.tag = p.2.tag
  metric : p'.2.metric? = p.2.metric?
  /-- An element without a metric is the same. -/
  encoded : p.2.metric? = none → p'.2.encoded = p.2.encoded

/-- Two stores differ in no more than the elements of metrics. -/
structure SameButSamples (m m' : MibStore) : Prop where
  capacity : m'.table.capacity = m.table.capacity
  entries : List.Forall₂ SameEntry m.table.entries m'.table.entries

/-- The blank store tells all but the elements of metrics. -/
theorem sameButSamples_of_blank_eq {m m' : MibStore} (h : m'.blank = m.blank) :
    m.SameButSamples m' where
  capacity := congrArg (·.table.capacity) h
  entries := by
    have hentries := congrArg (·.table.entries) h
    rw [blank, blank] at hentries
    dsimp only at hentries
    rw [← List.forall₂_eq_eq_eq, List.forall₂_map_left_iff, List.forall₂_map_right_iff] at hentries
    refine hentries.flip.imp fun p p' heq => ?_
    obtain ⟨hname, hblank⟩ := Prod.mk.inj heq
    obtain ⟨htag, hmetric, hencoded⟩ := eq_of_blank_eq hblank
    exact ⟨hname, htag, hmetric, hencoded⟩

theorem SameEntry.blank_eq {p p' : Oid × Entry} (h : SameEntry p p') :
    p'.2.blank = p.2.blank := by
  obtain ⟨oid, tag, encoded, metric?⟩ := p
  obtain ⟨oid', tag', encoded', metric?'⟩ := p'
  obtain ⟨-, htag, hmetric, hencoded⟩ := h
  cases htag
  cases hmetric
  cases metric? with
  | none =>
    cases hencoded rfl
    rfl
  | some metric => rfl

/-- The elements of metrics are not seen in the blank store. -/
theorem SameButSamples.blank_eq {m m' : MibStore} (h : m.SameButSamples m') :
    m'.blank = m.blank := by
  have hentries : m'.table.entries.map (fun p => (p.1, p.2.blank)) =
      m.table.entries.map fun p => (p.1, p.2.blank) := by
    rw [← List.forall₂_eq_eq_eq, List.forall₂_map_left_iff, List.forall₂_map_right_iff]
    refine h.entries.flip.imp fun p' p hp => ?_
    exact Prod.ext hp.name hp.blank_eq
  rw [blank, blank, hentries]
  dsimp only
  rw [h.capacity]

end MibStore

namespace Engine

/-- Whether a request is answered with variables. -/
def asks (request : Message) : Bool :=
  match request.pdu.type, request.version with
  | .getRequest, _ => true
  | .getNextRequest, _ => true
  | .getBulkRequest, .v2c => true
  | _, _ => false

variable {I : Lookup → Prop} {source : Nat → Snapshot} {m : MibStore} {s : Snapshot}
  {request : Message}

/-- A request that asks for no variable does nothing to the store and to the
    host, even if its reply cannot be written. -/
theorem maintains_answer_of_not_asks (h : asks request = false) :
    Maintains I (answer source request) := by
  obtain ⟨version, community, p⟩ := request
  obtain ⟨type, id, status, index, vs⟩ := p
  cases type with
  | getRequest | getNextRequest => cases h
  | getBulkRequest =>
    cases version with
    | v1 => exact maintains_pure none
    | v2c => cases h
  | setRequest => exact maintains_finish _ _
  | response | trapV1 | informRequest | trapV2 | report => exact maintains_pure none

/-- A request that asks for variables is never met with silence. -/
theorem exists_responseTo_of_asks (h : asks request = true) (m : MibStore) (s : Snapshot) :
    ∃ r, responseTo m s request = some r := by
  obtain ⟨version, community, p⟩ := request
  obtain ⟨type, id, status, index, vs⟩ := p
  cases type with
  | getRequest | getNextRequest => exact ⟨_, rfl⟩
  | getBulkRequest =>
    cases version with
    | v1 => cases h
    | v2c => exact ⟨_, rfl⟩
  | setRequest | response | trapV1 | informRequest | trapV2 | report => cases h

/-- A request that was admitted is met with octets or with an encoding error, or
    with silence if it asks for nothing. -/
theorem answerTo_cases (m : MibStore) (s : Snapshot) (request : Message) :
    (∃ octets, answerTo m s request = .ok (some octets)) ∨
      (∃ e, answerTo m s request = .error (.encode e)) ∨
      answerTo m s request = .ok none ∧ asks request = false := by
  rw [answerTo]
  cases hr : responseTo m s request with
  | none =>
    refine .inr (.inr ⟨rfl, Bool.eq_false_iff.2 fun hasks => ?_⟩)
    obtain ⟨r, hsome⟩ := exists_responseTo_of_asks hasks m s
    cases hr.symm.trans hsome
  | some r =>
    dsimp only
    cases encodeReply request r with
    | ok octets => exact .inl ⟨octets, rfl⟩
    | error e => exact .inr (.inl ⟨e, rfl⟩)

section

variable (config : AgentConfig) (host : Host) (store : MibStore) (packet : List UInt8)
  (peer : SocketAddr)

/-- Unless a request is admitted that asks for variables, nothing happens to the
    store or the host. -/
theorem process_untouched (h : ∀ request, Message.decode packet maxRequestVarbinds = .ok request →
      admits config request → asks request = false) :
    (process config host store packet peer).store = store ∧
      (process config host store packet peer).samples = 0 := by
  rcases process_cases config host store packet peer with
    huntouched | ⟨request, hdecode, hadmits, l, hfinal, hstore, hsamples⟩
  · exact huntouched
  · have hmaintains : Maintains (· = Lookup.start store)
        (answer (fun turn => host turn config.interfaces config.disks) request) :=
      maintains_answer_of_not_asks (h request hdecode hadmits)
    have hstart : l = Lookup.start store := hfinal ▸ hmaintains _ rfl
    rw [hstore, hsamples, hstart]
    exact ⟨rfl, rfl⟩

/-- The outcome of a packet whose request is admitted is the answer to it. -/
theorem result_eq_answerTo (hdecode : Message.decode packet maxRequestVarbinds = .ok request)
    (hadmits : admits config request) : (process config host store packet peer).result =
      answerTo store.blank (host 0 config.interfaces config.disks) request := by
  rw [(process_eq config host store packet peer).1, resultOf, hdecode]
  dsimp only
  rw [if_pos hadmits]

/-- A packet is turned away unless its request is admitted. -/
theorem turnedAway_or_exists_admits : (process config host store packet peer).TurnedAway ∨
    ∃ request, Message.decode packet maxRequestVarbinds = .ok request ∧ admits config request := by
  rw [Outcome.TurnedAway, (process_eq config host store packet peer).1, resultOf]
  cases Message.decode packet maxRequestVarbinds with
  | error e => exact .inl (.inl ⟨e, rfl⟩)
  | ok request =>
    dsimp only
    split_ifs with hadmits
    · exact .inr ⟨request, rfl, hadmits⟩
    · exact .inl (.inr ⟨some peer, rfl⟩)

variable {config host store packet peer}

/-- A packet whose request is admitted is not turned away. -/
theorem not_turnedAway (hdecode : Message.decode packet maxRequestVarbinds = .ok request)
    (hadmits : admits config request) : ¬(process config host store packet peer).TurnedAway := by
  rw [Outcome.TurnedAway, result_eq_answerTo config host store packet peer hdecode hadmits]
  rcases answerTo_cases store.blank (host 0 config.interfaces config.disks) request with
    ⟨octets, h⟩ | ⟨e, h⟩ | ⟨h, -⟩
  all_goals
    rw [h]
    rintro (⟨_, ⟨⟩⟩ | ⟨_, ⟨⟩⟩)

/-- A request that is met with silence asks for nothing. -/
theorem asks_eq_false_of_silence (h : (process config host store packet peer).result = .ok none)
    (hdecode : Message.decode packet maxRequestVarbinds = .ok request)
    (hadmits : admits config request) : asks request = false := by
  rw [result_eq_answerTo config host store packet peer hdecode hadmits] at h
  rcases answerTo_cases store.blank (host 0 config.interfaces config.disks) request with
    ⟨octets, hreply⟩ | ⟨e, herror⟩ | ⟨-, hasks⟩
  · cases h.symm.trans hreply
  · cases h.symm.trans herror
  · exact hasks

variable (config host store packet peer)

/-- A packet that is turned away, is met with silence or asks for a change
    leaves the store as it is and does not cause the host to be sampled. Where a
    community is asked for, every packet that is not turned away carries it. And
    whatever comes of a packet, an error included, it changes no more of the
    store than elements of metrics. -/
theorem process_rejected :
    ((process config host store packet peer).TurnedAway ∨
        (process config host store packet peer).result = .ok none ∨
        (∃ request, Message.decode packet maxRequestVarbinds = .ok request ∧
          request.pdu.type = .setRequest) →
      (process config host store packet peer).store = store ∧
        (process config host store packet peer).samples = 0) ∧
    (∀ community, config.community = some community →
      (process config host store packet peer).TurnedAway ∨
        ∃ request, Message.decode packet maxRequestVarbinds = .ok request ∧
          request.community = community.toUTF8.toList) ∧
    store.SameButSamples (process config host store packet peer).store := by
  refine ⟨fun hrejected => ?_, fun community hcommunity => ?_,
    MibStore.sameButSamples_of_blank_eq (process_eq config host store packet peer).2⟩
  · refine process_untouched config host store packet peer fun request hdecode hadmits => ?_
    rcases hrejected with haway | hsilence | ⟨request', hdecode', hset⟩
    · exact absurd haway (not_turnedAway hdecode hadmits)
    · exact asks_eq_false_of_silence hsilence hdecode hadmits
    · cases hdecode.symm.trans hdecode'
      rw [asks, hset]
  · rcases turnedAway_or_exists_admits config host store packet peer with
      haway | ⟨request, hdecode, hadmits⟩
    · exact .inl haway
    · rw [admits, hcommunity, Option.all_some, decide_eq_true_iff] at hadmits
      exact .inr ⟨request, hdecode, hadmits.symm⟩

end

/-- The message of a second-version request to change sysName, in the community
    "public". -/
def setMessage : Message :=
  ⟨.v2c, [0x70, 0x75, 0x62, 0x6C, 0x69, 0x63],
    ⟨.setRequest, 1, 0, 0, [⟨⟨[1, 3, 6, 1, 2, 1, 1, 5, 0]⟩, .octetString [0x78]⟩]⟩⟩

/-- The octets of that message. -/
def setRequest : List UInt8 :=
  [0x30, 0x27, 0x02, 0x01, 0x01, 0x04, 0x06, 0x70, 0x75, 0x62, 0x6C, 0x69, 0x63, 0xA3, 0x1A, 0x02,
    0x01, 0x01, 0x02, 0x01, 0x00, 0x02, 0x01, 0x00, 0x30, 0x0F, 0x30, 0x0D, 0x06, 0x08, 0x2B, 0x06,
    0x01, 0x02, 0x01, 0x01, 0x05, 0x00, 0x04, 0x01, 0x78]

/-- A request to change sysName leaves the store as it is, whether it carries
    the community that is asked for, and is refused, or another one, and is
    turned away. -/
theorem process_setRequest : Message.decode setRequest maxRequestVarbinds = .ok setMessage ∧
    ∃ m : MibStore, MibStore.build (standardDefinitions {} {}) {} maxValues = .ok m ∧
      ((process { community := "public" } (Host.static {}) m setRequest
          (.v4 ⟨127, 0, 0, 1⟩ 40000)).store = m ∧
        (process { community := "public" } (Host.static {}) m setRequest
          (.v4 ⟨127, 0, 0, 1⟩ 40000)).samples = 0) ∧
      (process { community := "private" } (Host.static {}) m setRequest
        (.v4 ⟨127, 0, 0, 1⟩ 40000)).TurnedAway := by
  have hdecode : Message.decode setRequest maxRequestVarbinds = .ok setMessage := rfl
  obtain ⟨m, hm⟩ := exists_eq_ok_of_isOk
    (x := MibStore.build (standardDefinitions {} {}) {} maxValues) (by decide +kernel)
  obtain ⟨huntouched, -⟩ := process_rejected { community := "public" } (Host.static {}) m
    setRequest (.v4 ⟨127, 0, 0, 1⟩ 40000)
  obtain ⟨-, hcommunity, -⟩ := process_rejected { community := "private" } (Host.static {}) m
    setRequest (.v4 ⟨127, 0, 0, 1⟩ 40000)
  refine ⟨hdecode, m, hm, huntouched (.inr (.inr ⟨setMessage, hdecode, rfl⟩)),
    (hcommunity "private" rfl).resolve_right ?_⟩
  rintro ⟨request, hdecode', hprivate⟩
  cases hdecode.symm.trans hdecode'
  exact absurd hprivate (by decide +kernel)

end Engine

end SnmpAgent
