import SnmpAgent.Proofs.Engine.Processing
import SnmpAgent.Proofs.Mib.Legibility

/-!
# Replies answer their requests

A manager that reads a reply finds a message that answers its request: in the
same version, under the same community and request id, and, unless it asked
for a bulk reply, with one varbind for each of its own. A failure names the
position at fault and gives back the names of the request without values. The
first version knows one failure and no markers for missing variables.

That the octets can be read at all rests on what is in the store: every entry
of a legible store, refreshed or not, has the element of a value.

* `Answers`: what a reply owes to its request;
* `responseTo_denotes`: every reply, before it is encoded;
* `process_answers`: the octets of every reply.
-/

namespace SnmpAgent.Engine

/-- What the reply owes to a request that is answered name by name. -/
structure Matches (request reply : Pdu) : Prop where
  count : reply.varbinds.length = request.varbinds.length
  index_nonneg : 0 ≤ reply.errorIndex.toInt
  index_le : reply.errorIndex.toInt ≤ request.varbinds.length
  /-- Where nothing went wrong, there is no position at fault. -/
  success : reply.status = .noError → reply.errorIndex = 0
  /-- A failure gives back the names without values, and a position, where there
      are names. -/
  failure : reply.status ≠ .noError →
    reply.varbinds = request.varbinds.map (fun v => ⟨v.oid, .null⟩) ∧
      (request.varbinds ≠ [] → 1 ≤ reply.errorIndex.toInt)

/-- What a reply owes to its request. -/
structure Answers (request reply : Message) : Prop where
  type : reply.pdu.type = .response
  version : reply.version = request.version
  community : reply.community = request.community
  requestId : reply.pdu.requestId = request.pdu.requestId
  /-- A request that is answered name by name is matched. -/
  single : request.pdu.type ∈ [.getRequest, .getNextRequest, .setRequest] →
    Matches request.pdu reply.pdu
  /-- The first version knows one failure and no markers. -/
  first : request.version = .v1 →
    (reply.pdu.status = .noError ∨ reply.pdu.status = .noSuchName) ∧
      ∀ v ∈ reply.pdu.varbinds, ¬v.value.isException

/-! ## Successes and failures -/

theorem matches_success (p : Pdu) {vs : List VarBind} (h : vs.length = p.varbinds.length) :
    Matches p (.response p.requestId .noError 0 vs) where
  count := h
  index_nonneg := Int.le_refl 0
  index_le := Int.natCast_nonneg _
  success _ := rfl
  failure herror := absurd rfl herror

theorem matches_failure {p : Pdu} (status : ErrorStatus) {i : Nat}
    (hstatus : (ErrorStatus.ofCode status.code) ≠ .noError)
    (hcount : p.varbinds.length ≤ maxRequestVarbinds) (hle : i ≤ p.varbinds.length)
    (hpos : p.varbinds ≠ [] → 1 ≤ i) :
    Matches p (.response p.requestId status (Int32.ofNat i)
      (p.varbinds.map fun v => ⟨v.oid, .null⟩)) := by
  have hindex : (Int32.ofNat i).toInt = i :=
    Int32.toInt_ofNat_of_lt (Nat.lt_of_le_of_lt (Nat.le_trans hle hcount) (by decide))
  constructor
  · exact List.length_map _
  · change 0 ≤ (Int32.ofNat i).toInt
    rw [hindex]
    exact Int.natCast_nonneg i
  · change (Int32.ofNat i).toInt ≤ _
    rw [hindex]
    exact Int.ofNat_le.2 hle
  · intro h
    exact absurd h hstatus
  · intro _
    refine ⟨rfl, fun hne => ?_⟩
    change 1 ≤ (Int32.ofNat i).toInt
    rw [hindex]
    exact Int.ofNat_le.2 (hpos hne)

/-- A failure of a request that was read denotes its names without values. -/
theorem denotes_failure {request : Message} {max : Nat} (h : request.Received max)
    (status : ErrorStatus) (i : Nat) :
    List.Forall₂ Binding.Denotes (Response.failure request.pdu status i).bindings
      (request.pdu.varbinds.map fun v => ⟨v.oid, .null⟩) := by
  rw [Response.failure, List.forall₂_map_left_iff, List.forall₂_map_right_iff, List.forall₂_same]
  intro v hv
  have hname := h.names v hv
  have hmarker := Binding.denotes_marker hname.validate (w := .null) rfl
  rwa [hname.repacked_eq] at hmarker

/-- Bindings each of which denotes something denote a list. -/
theorem exists_denotes {P : VarBind → Prop} {bs : List Binding}
    (h : ∀ b ∈ bs, ∃ v, b.Denotes v ∧ P v) :
    ∃ vs, List.Forall₂ Binding.Denotes bs vs ∧ ∀ v ∈ vs, P v := by
  induction bs with
  | nil => exact ⟨[], .nil, List.forall_mem_nil _⟩
  | cons b bs ih =>
    obtain ⟨⟨v, hv, hP⟩, hbs⟩ := List.forall_mem_cons.1 h
    obtain ⟨vs, hvs, hPs⟩ := ih hbs
    exact ⟨v :: vs, .cons hv hvs, List.forall_mem_cons.2 ⟨hP, hPs⟩⟩

/-- Each answer to names that were read denotes a varbind, which says an
    exception only where there is a marker for that. -/
theorem denotes_of_mem_answers {find : Oid → Option Binding} {version : Version} {w : Value}
    {oids : List Oid} {bs : List Binding}
    (h : answers find (missing version w.type) 1 oids = .ok bs) (hw : w.type.isMarker)
    (hfind : ∀ oid b, find oid = some b → ∃ v, b.Denotes v ∧ ¬v.value.isException)
    (hoids : ∀ oid ∈ oids, oid.Canonical) :
    ∀ b ∈ bs, ∃ v, b.Denotes v ∧ (version = .v1 → ¬v.value.isException) := by
  have hall := answers_eq_ok h
  clear h
  induction hall with
  | nil => exact List.forall_mem_nil _
  | @cons oid b oids bs hanswer _ ih =>
    obtain ⟨hoid, hoids⟩ := List.forall_mem_cons.1 hoids
    refine List.forall_mem_cons.2 ⟨?_, ih hoids⟩
    rcases hanswer with hfound | ⟨-, type, htype, rfl⟩
    · obtain ⟨v, hv, hexception⟩ := hfind oid b hfound
      exact ⟨v, hv, fun _ => hexception⟩
    · -- A marker stands in a reply of the second version only.
      cases version with
      | v1 => cases htype
      | v2c =>
        cases htype
        refine ⟨_, Binding.denotes_marker hoid.validate hw, fun hfirst => ?_⟩
        cases hfirst

/-! ## Replies -/

/-- The message that a reply with given varbinds is read as. -/
def readAs (r : Response) (request : Message) (vs : List VarBind) : Message :=
  ⟨request.version, request.community, .response r.requestId r.errorStatus r.errorIndex vs⟩

variable {m : MibStore} {s : Snapshot} {request : Message} {r : Response}

theorem reply_answers {find : Oid → Option Binding} {w : Value} (hw : w.type.isMarker)
    (hrequest : request.Received maxRequestVarbinds)
    (hr : r = reply request.pdu
      (answers find (missing request.version w.type) 1 (names request.pdu)))
    (hfind : ∀ oid b, find oid = some b → ∃ v, b.Denotes v ∧ ¬v.value.isException) :
    ∃ vs, List.Forall₂ Binding.Denotes r.bindings vs ∧ Answers request (readAs r request vs) := by
  subst hr
  have hnames : ∀ oid ∈ names request.pdu, oid.Canonical := by
    intro oid hoid
    obtain ⟨v, hv, rfl⟩ := List.mem_map.1 hoid
    exact hrequest.names v hv
  cases h : answers find (missing request.version w.type) 1 (names request.pdu) with
  | ok bs =>
    obtain ⟨vs, hvs, hfirst⟩ := exists_denotes (denotes_of_mem_answers h hw hfind hnames)
    have hcount : vs.length = request.pdu.varbinds.length := by
      rw [← hvs.length_eq, ← (answers_eq_ok h).length_eq, names, List.length_map]
    refine ⟨vs, hvs, rfl, rfl, rfl, rfl, fun _ => matches_success _ hcount, fun hversion => ?_⟩
    exact ⟨.inl rfl, fun v hv => hfirst v hv hversion⟩
  | error i =>
    obtain ⟨hpos, hle⟩ := answers_eq_error h
    rw [names, List.length_map] at hle
    refine ⟨_, denotes_failure hrequest .noSuchName i, rfl, rfl, rfl, rfl, fun _ => ?_, fun _ => ?_⟩
    · exact matches_failure .noSuchName (by decide) hrequest.count (by omega) fun _ => hpos
    · refine ⟨.inr rfl, fun v hv => ?_⟩
      obtain ⟨v, -, rfl⟩ := List.mem_map.1 hv
      exact Bool.false_ne_true

theorem refuseSet_answers (hrequest : request.Received maxRequestVarbinds) :
    ∃ vs, List.Forall₂ Binding.Denotes (refuseSet request.pdu request.version).bindings vs ∧
      Answers request (readAs (refuseSet request.pdu request.version) request vs) := by
  refine ⟨_, denotes_failure hrequest _ _, rfl, rfl, rfl, rfl, fun _ => ?_, fun hversion => ?_⟩
  · -- The first name is at fault, where there is one.
    have hle : (if request.pdu.varbinds.isEmpty then 0 else 1) ≤ request.pdu.varbinds.length := by
      cases request.pdu.varbinds <;> simp
    have hpos : request.pdu.varbinds ≠ [] →
        1 ≤ if request.pdu.varbinds.isEmpty then 0 else 1 := by
      intro hne
      rw [if_neg (by rwa [List.isEmpty_iff])]
    cases request.version with
    | v1 => exact matches_failure .noSuchName (by decide) hrequest.count hle hpos
    | v2c => exact matches_failure .notWritable (by decide) hrequest.count hle hpos
  · rw [hversion]
    refine ⟨.inr rfl, fun v hv => ?_⟩
    obtain ⟨v, -, rfl⟩ := List.mem_map.1 hv
    exact Bool.false_ne_true

/-- The bindings of a bulk reply denote varbinds, as many as there may be. -/
theorem exists_denotes_bulk (hm : m.Legible) (hrequest : request.Received maxRequestVarbinds) :
    ∃ vs, List.Forall₂ Binding.Denotes
      ((((names request.pdu).take request.pdu.nonRepeaters).map (successor m s) ++
        rowsOf (List.map (successor m s)) request.pdu.maxRepetitions
          ((names request.pdu).drop request.pdu.nonRepeaters)).take maxValues) vs := by
  have hsuccessor : ∀ oid : Oid, oid.validate = .ok () →
      (∃ v, (successor m s oid).Denotes v ∧ True) ∧
        (successor m s oid).oid.validate = .ok () := by
    intro oid hoid
    obtain ⟨v, hv⟩ : ∃ v, (successor m s oid).Denotes v := by
      rw [successor]
      cases hnext : m.next? s oid with
      | none => exact ⟨_, Binding.denotes_marker (w := .endOfMibView) hoid rfl⟩
      | some b =>
        obtain ⟨v, hv, -⟩ := hm.denotes_next? hnext
        exact ⟨v, hv⟩
    exact ⟨⟨v, hv, trivial⟩, hv.valid⟩
  have hnames : ∀ oid ∈ names request.pdu, oid.validate = .ok () := by
    intro oid hoid
    obtain ⟨v, hv, rfl⟩ := List.mem_map.1 hoid
    exact (hrequest.names v hv).validate
  have hsingle : ∀ b ∈ ((names request.pdu).take request.pdu.nonRepeaters).map (successor m s),
      ∃ v, b.Denotes v ∧ True := by
    intro b hb
    obtain ⟨oid, hoid, rfl⟩ := List.mem_map.1 hb
    exact (hsuccessor oid (hnames oid (List.mem_of_mem_take hoid))).1
  -- A row is asked for with the names of the row before it.
  have hrows := forall_mem_rowsOf (Q := fun b => ∃ v, b.Denotes v ∧ True) hsuccessor
    request.pdu.maxRepetitions fun oid hoid =>
      hnames oid (List.mem_of_mem_drop (i := request.pdu.nonRepeaters) hoid)
  obtain ⟨vs, hvs, -⟩ := exists_denotes fun b hb =>
    List.forall_mem_append.2 ⟨hsingle, hrows⟩ b (List.mem_of_mem_take (i := maxValues) hb)
  exact ⟨vs, hvs⟩

/-- What a reply denotes: a message that answers its request, however much of a
    bulk reply is kept. -/
def DenotesAnswer (request : Message) (r : Response) : Prop :=
  r.bindings.length ≤ maxValues ∧ ∃ vs, List.Forall₂ Binding.Denotes r.bindings vs ∧
    ∀ k, (request.pdu.type ≠ .getBulkRequest → k = r.bindings.length) →
      Answers request (readAs r request (vs.take k))

/-- A reply that is not cut denotes what it denotes as a whole. -/
theorem denotesAnswer_of_single (hrequest : request.Received maxRequestVarbinds)
    (htype : request.pdu.type ∈ [.getRequest, .getNextRequest, .setRequest])
    (h : ∃ vs, List.Forall₂ Binding.Denotes r.bindings vs ∧ Answers request (readAs r request vs)) :
    DenotesAnswer request r := by
  obtain ⟨vs, hvs, hanswers⟩ := h
  have hcount : r.bindings.length = request.pdu.varbinds.length :=
    hvs.length_eq.trans (hanswers.single htype).count
  have hsmall := hrequest.count
  refine ⟨by rw [hcount, maxValues]; rw [maxRequestVarbinds] at hsmall; omega, vs, hvs, ?_⟩
  intro k hk
  have hnotbulk : request.pdu.type ≠ .getBulkRequest := by
    intro hbulk
    rw [hbulk] at htype
    exact absurd htype (by decide)
  rw [hk hnotbulk, hvs.length_eq, List.take_length]
  exact hanswers

theorem responseTo_denotes (hm : m.Legible) (hrequest : request.Received maxRequestVarbinds)
    (hr : responseTo m s request = some r) : DenotesAnswer request r := by
  rw [responseTo] at hr
  split at hr
  · rename_i htype
    cases hr
    exact denotesAnswer_of_single hrequest (by simp [htype])
      (reply_answers (w := .noSuchObject) rfl hrequest rfl fun _ _ => hm.denotes_lookup?)
  · rename_i htype
    cases hr
    exact denotesAnswer_of_single hrequest (by simp [htype])
      (reply_answers (w := .endOfMibView) rfl hrequest rfl fun _ _ => hm.denotes_next?)
  · rename_i htype hversion
    cases hr
    obtain ⟨vs, hvs⟩ := exists_denotes_bulk (s := s) hm hrequest
    refine ⟨List.length_take_le _ _, vs, hvs, fun k _ => ?_⟩
    refine ⟨rfl, rfl, rfl, rfl, fun hsingle => ?_, fun hfirst => ?_⟩
    · rw [htype] at hsingle
      exact absurd hsingle (by decide)
    · rw [hversion] at hfirst
      cases hfirst
  · rename_i htype
    cases hr
    exact denotesAnswer_of_single hrequest (by simp [htype]) (refuseSet_answers hrequest)
  · cases hr

/-- What is sent is a reply with its first bindings: all of them, unless it is a
    bulk reply. -/
theorem exists_take_of_encodeReply {octets : List UInt8}
    (hrequest : Message.CommunityFits request.community)
    (h : encodeReply request r = .ok octets) : ∃ k,
      (request.pdu.type ≠ .getBulkRequest → k = r.bindings.length) ∧
      (r.take k).encode request (some maxPacketSize) = .ok octets := by
  rw [encodeReply] at h
  split_ifs at h with hbulk
  · obtain ⟨k, octets', -, hencode, hfitting⟩ := r.encodeFitting_eq hrequest
    cases hfitting.symm.trans h
    exact ⟨k, fun hnot => absurd hbulk hnot, hencode⟩
  · refine ⟨r.bindings.length, fun _ => rfl, ?_⟩
    rw [Response.take, List.take_length]
    exact h

/-- A packet that has a reply is a request that was admitted. -/
theorem resultOf_eq_some {config : AgentConfig} {packet octets : List UInt8} {peer : SocketAddr}
    (h : resultOf config m s packet peer = .ok (some octets)) : ∃ request r,
      Message.decode packet maxRequestVarbinds = .ok request ∧ admits config request ∧
        responseTo m s request = some r ∧ encodeReply request r = .ok octets := by
  rw [resultOf] at h
  split at h
  · cases h
  · rename_i request hdecode
    split_ifs at h with hadmits
    rw [answerTo] at h
    split at h
    · cases h
    · rename_i r hr
      refine ⟨request, r, hdecode, hadmits, hr, ?_⟩
      cases hencode : encodeReply request r with
      | ok octets' =>
        rw [hencode] at h
        cases h
        rfl
      | error e =>
        rw [hencode] at h
        cases h

/-- No reply is too long for a packet, whatever is in the store. -/
theorem length_le_of_process {config : AgentConfig} {host : Host} {store : MibStore}
    {packet octets : List UInt8} {peer : SocketAddr}
    (h : (process config host store packet peer).result = .ok (some octets)) :
    octets.length ≤ maxPacketSize := by
  rw [(process_eq config host store packet peer).1] at h
  obtain ⟨request, r, hdecode, -, -, hencode⟩ := resultOf_eq_some h
  obtain ⟨k, -, hoctets⟩ :=
    exists_take_of_encodeReply (Message.received_of_decode hdecode).community hencode
  exact (Response.encode_eq_ok_iff.1 hoctets).2

/-- Every reply that is sent is well formed and answers its request: whatever
    happened to a store of the standard variables, the octets fit into a packet
    and are read as a message that answers the request in the packet. -/
theorem process_answers {config : AgentConfig} (hconfig : config.validate = .ok ())
    {s₁ s₂ : Snapshot} {capacity : Nat} {m store : MibStore}
    (hbuild : MibStore.build (standardDefinitions config s₁) s₂ capacity = .ok m)
    (hreach : Reaches m store) (host : Host) (packet : List UInt8) (peer : SocketAddr)
    {octets : List UInt8}
    (h : (process config host store packet peer).result = .ok (some octets)) :
    octets.length ≤ maxPacketSize ∧ ∃ request reply : Message,
      Message.decode packet maxRequestVarbinds = .ok request ∧
        Message.decode octets maxValues = .ok reply ∧ Answers request reply := by
  -- No history is seen in the blank store, which is as legible as the definitions.
  have hlegible : store.blank.Legible := by
    rw [hreach.blank]
    exact (MibStore.legible_of_build hbuild (legible_standardDefinitions hconfig s₁)).blank
  rw [(process_eq config host store packet peer).1] at h
  obtain ⟨request, r, hdecode, -, hr, hencode⟩ := resultOf_eq_some h
  have hreceived := Message.received_of_decode hdecode
  obtain ⟨hcount, vs, hvs, hanswers⟩ := responseTo_denotes hlegible hreceived hr
  obtain ⟨k, hk, hoctets⟩ := exists_take_of_encodeReply hreceived.community hencode
  refine ⟨(Response.encode_eq_ok_iff.1 hoctets).2, request, _, hdecode, ?_, hanswers k hk⟩
  exact Response.decode_of_encode (r := r.take k) hoctets hreceived.community
    (List.forall₂_take k hvs) (Nat.le_trans (List.length_take_le' k r.bindings) hcount)

/-- The reply to a request for the uptime of the agent answers that request. -/
theorem process_uptimeRequest_answers : ∃ (m : MibStore) (octets : List UInt8),
    MibStore.build (standardDefinitions {} {}) {} maxValues = .ok m ∧
      (process {} (Host.static { agentUptime := 300 }) m uptimeRequest
        (.v4 ⟨127, 0, 0, 1⟩ 40000)).result = .ok (some octets) ∧
      octets.length ≤ maxPacketSize ∧ ∃ request reply : Message,
        Message.decode uptimeRequest maxRequestVarbinds = .ok request ∧
          Message.decode octets maxValues = .ok reply ∧ Answers request reply := by
  have hrun : (do
      let m ← MibStore.build (standardDefinitions {} {}) {} maxValues
      (process {} (Host.static { agentUptime := 300 }) m uptimeRequest
        (.v4 ⟨127, 0, 0, 1⟩ 40000)).result) =
      .ok (some [0x30, 0x28, 0x02, 0x01, 0x01, 0x04, 0x06, 0x70, 0x75, 0x62, 0x6C, 0x69, 0x63, 0xA2,
        0x1B, 0x02, 0x01, 0x01, 0x02, 0x01, 0x00, 0x02, 0x01, 0x00, 0x30, 0x10, 0x30, 0x0E, 0x06,
        0x08, 0x2B, 0x06, 0x01, 0x02, 0x01, 0x01, 0x03, 0x00, 0x43, 0x02, 0x01, 0x2C]) := by
    decide +kernel
  obtain ⟨m, hbuild, hresult⟩ := except_bind_eq_ok.1 hrun
  exact ⟨m, _, hbuild, hresult, process_answers (by decide) hbuild .refl _ _ _ hresult⟩

end SnmpAgent.Engine
