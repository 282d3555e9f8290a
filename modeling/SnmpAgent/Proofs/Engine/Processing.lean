import SnmpAgent.Proofs.Engine.Bulk
import SnmpAgent.Proofs.Mib.Building
import SnmpAgent.Mib.Standard
import SnmpAgent.Proofs.Engine.Trimming
import Mathlib.Logic.Relation

/-!
# Processing packets

The outcome of a packet is a function of the packet, the configuration, the
blank store, and the first snapshot of the host. Since processing a packet or
refreshing the variables leaves the blank store alone, no history of a store
is seen in any outcome.

* `Engine.responseTo`: the reply to a request, as a function;
* `Engine.resolved`: the variables that a request comes to, which tell whether
  the host is sampled (`Engine.answer_eq`);
* `Engine.process_eq`: the outcome of a packet, as a function;
* `Reaches`: the stores that come of a store by packets and refreshes, all of
  which have the same blank store (`Reaches.blank`);
* `Engine.process_eq_of_reaches`: replies do not depend on history;
* `Engine.process_getBulk`: a bulk request always has a reply, with as many
  bindings as fit.
-/

namespace SnmpAgent

namespace Engine

/-- The reply to a request, unless it is met with silence. -/
def responseTo (m : MibStore) (s : Snapshot) (request : Message) : Option Response :=
  let p := request.pdu
  match p.type, request.version with
  | .getRequest, version =>
    some (reply p (answers (m.lookup? s) (missing version .noSuchObject) 1 (names p)))
  | .getNextRequest, version =>
    some (reply p (answers (m.next? s) (missing version .endOfMibView) 1 (names p)))
  | .getBulkRequest, .v2c =>
    some (Response.success p.requestId ((((names p).take p.nonRepeaters).map (successor m s) ++
      rowsOf (List.map (successor m s)) p.maxRepetitions
        ((names p).drop p.nonRepeaters)).take maxValues))
  | .setRequest, version => some (refuseSet p version)
  | _, _ => none

/-- The position at which a request finds the variable that answers a name. -/
def located? (m : MibStore) (request : Message) : Oid → Option Nat :=
  if request.pdu.type = .getRequest then m.locate? else m.findNext?

/-- The names that a request searches for, one after another. -/
def searched (m : MibStore) (request : Message) : List Oid :=
  let p := request.pdu
  match p.type, request.version with
  | .getRequest, version => asked m.locate? (missing version .noSuchObject) (names p)
  | .getNextRequest, version => asked m.findNext? (missing version .endOfMibView) (names p)
  | .getBulkRequest, .v2c => bulkNames m p
  | _, _ => []

/-- The positions of the variables that a request comes to, one after another. -/
def resolved (m : MibStore) (request : Message) : List Nat :=
  (searched m request).filterMap (located? m request)

/-- The octets of a reply, cut to ordinary size if it answers a bulk request. -/
def encodeReply (request : Message) (r : Response) : Except EncodeError (List UInt8) :=
  if request.pdu.type = .getBulkRequest then r.encodeFitting request maxPacketSize
  else r.encode request maxPacketSize

/-- What is sent: the octets of a reply, if it can be written. -/
def sent : Except EncodeError (List UInt8) → Except AgentError (Option (List UInt8))
  | .ok octets => .ok (some octets)
  | .error e => .error (.encode e)

/-- The octets that answer a request, silence, or an error. -/
def answerTo (m : MibStore) (s : Snapshot) (request : Message) :
    Except AgentError (Option (List UInt8)) :=
  match responseTo m s request with
  | none => .ok none
  | some r => sent (encodeReply request r)

/-- The outcome of a packet: the octets of a reply, silence, or an error. -/
def resultOf (config : AgentConfig) (m : MibStore) (s : Snapshot) (packet : List UInt8)
    (peer : SocketAddr) : Except AgentError (Option (List UInt8)) :=
  match Message.decode packet maxRequestVarbinds with
  | .error e => .error (.decode e)
  | .ok request =>
    if admits config request then answerTo m s request
    else .error (.invalidCommunity (some peer))

/-- A run from `l` to `l'` comes to a result, or to an error. -/
def Comes {α : Type} (x : Answering α) (l : Lookup) (result : Except AgentError α) (l' : Lookup) :
    Prop :=
  match result with
  | .ok a => x l = .ok a l'
  | .error e => x l = .error e l'

variable {source : Nat → Snapshot} {m : MibStore} {s : Snapshot} {l : Lookup}

/-- Encoding a reply that was found does not touch what is kept, and takes no
    snapshot. -/
theorem comes_sent {x : Answering Response} {r : Response} {is : List Nat}
    {encode : Response → Except EncodeError (List UInt8)} (hx : Resolves source m s x r is)
    (hl : l.Keeps source m s) : ∃ l' : Lookup, l'.Keeps source m s ∧
      (l'.snapshot?.isSome ↔ l.snapshot?.isSome ∨ ∃ i ∈ is, m.Changes i) ∧
      Comes (do
        let r ← x
        match encode r with
        | .ok octets => return some octets
        | .error e => throw (.encode e)) l (sent (encode r)) l' := by
  obtain ⟨l', hx, hl', hsampled⟩ := hx l hl
  refine ⟨l', hl', hsampled, ?_⟩
  cases h : encode r with
  | ok octets => exact (bind_of_ok hx).trans (by rw [h]; rfl)
  | error e => exact (bind_of_ok hx).trans (by rw [h]; rfl)

/-- A request is answered as the blank store and the snapshot say, and leaves
    them as they are. The host is sampled for it if it comes to a variable that
    changes. -/
theorem answer_eq (request : Message) (hl : l.Keeps source m s) : ∃ l' : Lookup,
    l'.Keeps source m s ∧
      (l'.snapshot?.isSome ↔ l.snapshot?.isSome ∨ ∃ i ∈ resolved m request, m.Changes i) ∧
      Comes (answer source request) l (answerTo m s request) l' := by
  have hsilent : ∀ is : List Nat, is = [] →
      (l.snapshot?.isSome ↔ l.snapshot?.isSome ∨ ∃ i ∈ is, m.Changes i) := by
    rintro is rfl
    simp
  obtain ⟨version, community, p⟩ := request
  obtain ⟨type, id, status, index, vs⟩ := p
  cases type with
  | getRequest => exact comes_sent (resolves_get _ version) hl
  | getNextRequest => exact comes_sent (resolves_getNext _ version) hl
  | getBulkRequest =>
    cases version with
    | v1 => exact ⟨l, hl, hsilent _ rfl, rfl⟩
    | v2c => exact comes_sent (resolves_getBulk _) hl
  | setRequest => exact comes_sent (resolves_pure (refuseSet _ version)) hl
  | response | trapV1 | informRequest | trapV2 | report => exact ⟨l, hl, hsilent _ rfl, rfl⟩

/-- The outcome of a packet is told by the blank store and the first snapshot of
    the host, and the blank store stays as it is. -/
theorem process_eq (config : AgentConfig) (host : Host) (store : MibStore) (packet : List UInt8)
    (peer : SocketAddr) : (process config host store packet peer).result =
        resultOf config store.blank (host 0 config.interfaces config.disks) packet peer ∧
      (process config host store packet peer).store.blank = store.blank := by
  rw [process, resultOf]
  cases Message.decode packet maxRequestVarbinds with
  | error e => exact ⟨rfl, rfl⟩
  | ok request =>
    dsimp only
    by_cases hadmits : admits config request
    · rw [if_pos hadmits, if_pos hadmits]
      obtain ⟨l, hl, -, hrun⟩ := answer_eq request
        (Lookup.keeps_start (fun turn => host turn config.interfaces config.disks) store)
      cases h : answerTo store.blank (host 0 config.interfaces config.disks) request with
      | ok reply? =>
        rw [h, Comes] at hrun
        rw [hrun]
        exact ⟨rfl, hl.store⟩
      | error e =>
        rw [h, Comes] at hrun
        rw [hrun]
        exact ⟨rfl, hl.store⟩
    · rw [if_neg hadmits, if_neg hadmits]
      exact ⟨rfl, rfl⟩

/-- A reply that can be written is sent, if its request is admitted. -/
theorem process_of_responseTo {config : AgentConfig} {host : Host} {store : MibStore}
    {packet octets : List UInt8} {request : Message} {r : Response}
    (hdecode : Message.decode packet maxRequestVarbinds = .ok request)
    (hadmits : admits config request)
    (hresponse : responseTo store.blank (host 0 config.interfaces config.disks) request = some r)
    (hencode : encodeReply request r = .ok octets) (peer : SocketAddr) :
    (process config host store packet peer).result = .ok (some octets) := by
  rw [(process_eq config host store packet peer).1, resultOf, hdecode]
  dsimp only
  rw [if_pos hadmits, answerTo, hresponse]
  dsimp only
  rw [hencode, sent]

end Engine

/-! ## Histories -/

/-- One thing that may happen to a store: a packet is processed, or all
    variables are refreshed. -/
inductive Happens : MibStore → MibStore → Prop where
  | process (config : AgentConfig) (host : Host) (store : MibStore) (packet : List UInt8)
      (peer : SocketAddr) : Happens store (Engine.process config host store packet peer).store
  | refresh (store : MibStore) (s : Snapshot) : Happens store (store.refreshAll s).1

/-- The stores that come of a store by packets and refreshes, in any order. -/
def Reaches : MibStore → MibStore → Prop := Relation.ReflTransGen Happens

/-- Nothing that may happen to a store is seen in its blank store. -/
theorem Happens.blank {m m' : MibStore} (h : Happens m m') : m'.blank = m.blank := by
  cases h with
  | process config host _ packet peer => exact (Engine.process_eq config host m packet peer).2
  | refresh _ s => exact (m.refreshAll_blank s).2

theorem Reaches.blank {m m' : MibStore} (h : Reaches m m') : m'.blank = m.blank := by
  induction h with
  | refl => rfl
  | tail _ hlast ih => exact hlast.blank.trans ih

namespace Engine

/-- A second-version request for the variable after sysObjectID.0, in the
    community "public". -/
def uptimeRequest : List UInt8 :=
  [0x30, 0x26, 0x02, 0x01, 0x01, 0x04, 0x06, 0x70, 0x75, 0x62, 0x6C, 0x69, 0x63, 0xA1, 0x19, 0x02,
    0x01, 0x01, 0x02, 0x01, 0x00, 0x02, 0x01, 0x00, 0x30, 0x0E, 0x30, 0x0C, 0x06, 0x08, 0x2B, 0x06,
    0x01, 0x02, 0x01, 0x01, 0x02, 0x00, 0x05, 0x00]

/-- Replies do not depend on history: two stores that come of the same
    definitions, whatever happened to them, answer the same packet alike when
    the host reports the same figures. -/
theorem process_eq_of_reaches {definitions : List Definition} {capacity : Nat} {s₁ s₂ : Snapshot}
    {m₁ m₂ store₁ store₂ : MibStore} (h₁ : MibStore.build definitions s₁ capacity = .ok m₁)
    (h₂ : MibStore.build definitions s₂ capacity = .ok m₂) (hr₁ : Reaches m₁ store₁)
    (hr₂ : Reaches m₂ store₂) (config : AgentConfig) {host₁ host₂ : Host}
    (hhost : host₁ 0 config.interfaces config.disks = host₂ 0 config.interfaces config.disks)
    (packet : List UInt8) (peer : SocketAddr) :
    (process config host₁ store₁ packet peer).result =
      (process config host₂ store₂ packet peer).result := by
  have hblank : store₁.blank = store₂.blank := by
    rw [hr₁.blank, hr₂.blank, MibStore.blank_eq_of_build h₁ h₂]
  rw [(process_eq config host₁ store₁ packet peer).1,
    (process_eq config host₂ store₂ packet peer).1, hblank, hhost]

/-- The uptime of the agent is answered alike whether or not it has been
    refreshed before. -/
theorem process_uptimeRequest_refreshed : ∃ m : MibStore,
    MibStore.build (standardDefinitions {} {}) {} maxValues = .ok m ∧
      (process {} (Host.static { agentUptime := 300 }) (m.refreshAll { agentUptime := 7 }).1
        uptimeRequest (.v4 ⟨127, 0, 0, 1⟩ 40000)).result =
      (process {} (Host.static { agentUptime := 300 }) m uptimeRequest
        (.v4 ⟨127, 0, 0, 1⟩ 40000)).result := by
  obtain ⟨m, hm⟩ := exists_eq_ok_of_isOk
    (x := MibStore.build (standardDefinitions {} {}) {} maxValues) (by decide +kernel)
  exact ⟨m, hm, process_eq_of_reaches hm hm (.single (.refresh m _)) .refl {} rfl _ _⟩

/-- The message of a bulk request for what comes after 1.3.6.1.2.1, 127 times
    over. -/
def bulkMessage : Message :=
  ⟨.v2c, [0x70, 0x75, 0x62, 0x6C, 0x69, 0x63],
    ⟨.getBulkRequest, 1, 0, 127, [⟨⟨[1, 3, 6, 1, 2, 1]⟩, .null⟩]⟩⟩

/-- The octets of that message. -/
def bulkRequest : List UInt8 :=
  [0x30, 0x23, 0x02, 0x01, 0x01, 0x04, 0x06, 0x70, 0x75, 0x62, 0x6C, 0x69, 0x63, 0xA5, 0x16, 0x02,
    0x01, 0x01, 0x02, 0x01, 0x00, 0x02, 0x01, 0x7F, 0x30, 0x0B, 0x30, 0x09, 0x06, 0x05, 0x2B, 0x06,
    0x01, 0x02, 0x01, 0x05, 0x00]

/-- A bulk request is never met with silence or an error, and its reply is cut
    no more than it has to be: it has the most leading bindings with which it
    fits into a packet. -/
theorem process_getBulk {config : AgentConfig} {packet : List UInt8} {request : Message}
    (hdecode : Message.decode packet maxRequestVarbinds = .ok request)
    (hadmits : admits config request) (htype : request.pdu.type = .getBulkRequest)
    (hversion : request.version = .v2c) (host : Host) (store : MibStore) (peer : SocketAddr) :
    ∃ (r : Response) (l : Lookup) (k : Nat) (octets : List UInt8),
      getBulk (fun turn => host turn config.interfaces config.disks) request.pdu
        (Lookup.start store) = .ok r l ∧
      (process config host store packet peer).result = .ok (some octets) ∧
      (r.take k).encode request none = .ok octets ∧ octets.length ≤ maxPacketSize ∧
      IsGreatest {k | k ≤ r.bindings.length ∧ (r.take k).Fits request maxPacketSize} k := by
  obtain ⟨l, hl, -⟩ := gives_getBulk request.pdu _
    (Lookup.keeps_start (fun turn => host turn config.interfaces config.disks) store)
  obtain ⟨k, octets, hgreatest, hencode, hfitting⟩ :=
    Response.encodeFitting_eq (Response.success request.pdu.requestId _)
      (Message.received_of_decode hdecode).community
  obtain ⟨hoctets, hlength⟩ := Response.encode_eq_ok_iff.1 hencode
  refine ⟨_, l, k, octets, hl, ?_, Response.encode_none_eq_ok_iff.2 hoctets, hlength, hgreatest⟩
  rw [(process_eq config host store packet peer).1, resultOf, hdecode]
  dsimp only
  rw [if_pos hadmits, answerTo, responseTo, htype, hversion]
  dsimp only
  rw [encodeReply, if_pos htype, hfitting]
  rfl

/-- Of the 127 bindings that an agent of the standard variables has for a bulk
    request, the first 123 fit into a packet, and these are sent. -/
theorem process_bulkRequest : Message.decode bulkRequest maxRequestVarbinds = .ok bulkMessage ∧
    ∃ m : MibStore, MibStore.build (standardDefinitions {} {}) {} maxValues = .ok m ∧
    ∃ (r : Response) (l : Lookup) (k : Nat) (octets : List UInt8),
      getBulk (fun turn => Host.static {} turn [] ["/"]) bulkMessage.pdu (Lookup.start m) =
        .ok r l ∧
      (process {} (Host.static {}) m bulkRequest (.v4 ⟨127, 0, 0, 1⟩ 40000)).result =
        .ok (some octets) ∧
      (r.take k).encode bulkMessage none = .ok octets ∧ octets.length ≤ maxPacketSize ∧
      IsGreatest {k | k ≤ r.bindings.length ∧ (r.take k).Fits bulkMessage maxPacketSize} k ∧
      r.bindings.length = 127 ∧ k = 123 := by
  have hdecode : Message.decode bulkRequest maxRequestVarbinds = .ok bulkMessage := rfl
  have hadmits : admits {} bulkMessage := by decide
  have hcommunity := (Message.received_of_decode hdecode).community
  have hrun : (do
      let m ← MibStore.build (standardDefinitions {} {}) {} maxValues
      let r? := (getBulk (fun turn => Host.static {} turn [] ["/"]) bulkMessage.pdu).run'
        (Lookup.start m)
      return r?.map fun r : Response => (r.bindings.length, Response.countWithin
        (maxPacketSize - ((r.header bulkMessage).frameLength 0 + 6)) r.bindings)) =
      .ok (some (127, 123)) := by
    decide +kernel
  obtain ⟨m, hm, hrun⟩ := except_bind_eq_ok.1 hrun
  obtain ⟨r, l, k, octets, hr, hresult, hencode, hlength, hgreatest⟩ :=
    process_getBulk hdecode hadmits rfl rfl (Host.static {}) m (.v4 ⟨127, 0, 0, 1⟩ 40000)
  have hr' : getBulk (fun turn => Host.static {} turn [] ["/"]) bulkMessage.pdu (Lookup.start m) =
    .ok r l := hr
  dsimp only [EStateM.run', EStateM.run] at hrun
  rw [hr'] at hrun
  obtain ⟨hbindings, hcount⟩ := Prod.mk.inj (Option.some.inj (Except.ok.inj hrun))
  refine ⟨hdecode, m, hm, r, l, k, octets, hr, hresult, hencode, hlength, hgreatest, hbindings, ?_⟩
  rw [← hcount]
  exact hgreatest.unique (r.isGreatest_fits hcommunity)

end Engine

end SnmpAgent
