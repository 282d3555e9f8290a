import SnmpAgent.Proofs.Engine.Admission
import SnmpAgent.Proofs.Engine.Replies

/-!
# One snapshot for each request

A request samples the host when it comes to the first variable that changes,
and never again. However often variables are answered with, and in whatever
mix, those that change are shown at the instant of that one snapshot, even if
the host would say something else by then, and whatever was left in the store
by earlier requests. The others are shown as they were built.

* `MibStore.changes_iff_of_build`, `MibStore.bindingAt_of_build`: what changes
  and what is shown, said of the definitions;
* `Lookup.Counted`: the snapshot of a request is the only one that was taken;
* `Engine.samples_of_admits`: whether a request takes it;
* `Engine.Shows`, `Engine.ShowsAll`: what a binding says of the name that it
  answers, and a reply of the names that are searched for;
* `Engine.process_fromOneSnapshot`: packets are answered from one snapshot.
-/

namespace SnmpAgent

namespace MibStore

variable {definitions : List Definition} {s s₀ : Snapshot} {capacity : Nat} {m : MibStore}

/-- The variables that change are those with a metric in their cell. -/
theorem changes_iff_of_build (h : build definitions s₀ capacity = .ok m) (i : Nat) :
    m.Changes i ↔ ∃ tag name metric,
      (instances definitions)[i]? = some (tag, name, .metric metric) := by
  cases hentry : m.get? i with
  | none =>
    have hnone : (instances definitions)[i]? = none :=
      List.getElem?_eq_none ((build_eq_ok h).1.length_eq ▸ List.getElem?_eq_none_iff.1 hentry)
    simp [Changes, hentry, hnone]
  | some p =>
    obtain ⟨name, e⟩ := p
    obtain ⟨tag, cell, hinstance, hmade⟩ := getElem?_instances_of_build h hentry
    obtain ⟨-, -, -, -, -, hcell⟩ := entry_eq_ok.1 hmade
    rw [Changes, hentry, Option.any_some, hcell, hinstance]
    cases cell with
    | fixed v => exact iff_of_false Bool.false_ne_true (by rintro ⟨_, _, _, ⟨⟩⟩)
    | metric metric => exact iff_of_true rfl ⟨tag, name, metric, rfl⟩

/-- A variable is answered with under the name of its instance, by the element
    of the value that its cell has as of the snapshot. -/
theorem bindingAt_of_build (h : build definitions s₀ capacity = .ok m) {i : Nat} {b : Binding}
    (hb : m.bindingAt s i = some b) : ∃ tag cell,
      (instances definitions)[i]? = some (tag, b.oid, cell) ∧ (cell.value s).tlv = .ok b.value := by
  obtain ⟨⟨name, e⟩, hentry, rfl⟩ := Option.map_eq_some_iff.1 hb
  obtain ⟨tag, cell, hinstance, hmade⟩ := getElem?_instances_of_build h hentry
  obtain ⟨-, -, -, htlv, -, hcell⟩ := entry_eq_ok.1 hmade
  refine ⟨tag, cell, hinstance, ?_⟩
  dsimp only
  rw [Entry.octetsAt, hcell]
  cases cell with
  | fixed v => exact htlv
  | metric metric => exact metric.tlv_sample s

end MibStore

/-! ## Searches -/

namespace Engine

theorem reached_blank (m : MibStore) : reached m.blank = reached m := by
  funext oid
  simp only [reached, m.findNext?_blank, m.get?_blank, Option.map_map, Function.comp_def]

theorem located?_blank (m : MibStore) (request : Message) :
    located? m.blank request = located? m request := by
  have hlocate : m.blank.locate? = m.locate? := funext m.locate?_blank
  have hnext : m.blank.findNext? = m.findNext? := funext m.findNext?_blank
  rw [located?, hlocate, hnext, located?]

theorem searched_blank (m : MibStore) (request : Message) :
    searched m.blank request = searched m request := by
  have hlocate : m.blank.locate? = m.locate? := funext m.locate?_blank
  have hnext : m.blank.findNext? = m.findNext? := funext m.findNext?_blank
  simp only [searched, hlocate, hnext, bulkNames, reached_blank]

theorem resolved_blank (m : MibStore) (request : Message) :
    resolved m.blank request = resolved m request := by
  rw [resolved, searched_blank, located?_blank, resolved]

theorem successor_blank (m : MibStore) (s : Snapshot) : successor m.blank s = successor m s := by
  funext oid
  rw [successor, m.next?_blank, successor]

theorem responseTo_blank (m : MibStore) (s : Snapshot) (request : Message) :
    responseTo m.blank s request = responseTo m s request := by
  have hlookup : m.blank.lookup? s = m.lookup? s := funext (m.lookup?_blank s)
  have hnext : m.blank.next? s = m.next? s := funext (m.next?_blank s)
  simp only [responseTo, hlookup, hnext, successor_blank]

end Engine

/-! ## Taking a snapshot -/

namespace Lookup

/-- The host was sampled once if there is a snapshot, and otherwise never. -/
def Counted (l : Lookup) : Prop := l.samples = if l.snapshot?.isSome then 1 else 0

variable {source : Nat → Snapshot}

/-- The host is only sampled where there is no snapshot yet. -/
theorem maintains_sample : Maintains Counted (sample source) := by
  intro l hl
  rw [final, sample, get_bind]
  cases h : l.snapshot? with
  | some s => exact hl
  | none =>
    rw [Counted, h] at hl
    exact congrArg (· + 1) hl

theorem maintains_refresh (i : Nat) (s : Snapshot) : Maintains Counted (refresh i s) := by
  intro l hl
  rw [final, refresh, get_bind]
  cases l.store.refresh i s <;> exact hl

theorem maintains_counted (source : Nat → Snapshot) (i : Nat) :
    Maintains Counted (binding source i) := by
  refine maintains_get fun l => ?_
  split_ifs
  · exact maintains_sample.bind fun s => (maintains_refresh i s).bind fun _ =>
      maintains_get fun _ => maintains_pure _
  · exact maintains_get fun _ => maintains_pure _

end Lookup

namespace Engine

theorem Comes.final_eq {α : Type} {x : Answering α} {l l' : Lookup} {result : Except AgentError α}
    (h : Comes x l result l') : final x l = l' := by
  rw [final]
  cases result with
  | ok a =>
    rw [Comes] at h
    rw [h]
  | error e =>
    rw [Comes] at h
    rw [h]

variable {config : AgentConfig} {packet : List UInt8} {request : Message}

/-- An admitted request takes one snapshot if it comes to a variable that
    changes, and otherwise none. -/
theorem samples_of_admits (hdecode : Message.decode packet maxRequestVarbinds = .ok request)
    (hadmits : admits config request) (host : Host) (store : MibStore) (peer : SocketAddr) :
    (process config host store packet peer).samples ≤ 1 ∧
      ((process config host store packet peer).samples = 1 ↔
        ∃ i ∈ resolved store request, store.Changes i) := by
  obtain ⟨l, -, hsampled, hcomes⟩ := answer_eq request
    (Lookup.keeps_start (fun turn => host turn config.interfaces config.disks) store)
  have hcounted : l.Counted := by
    rw [← hcomes.final_eq]
    exact maintains_answer (Lookup.maintains_counted _) request _ rfl
  rw [Lookup.Counted] at hcounted
  have hsamples : (process config host store packet peer).samples = l.samples := by
    rw [process, hdecode]
    dsimp only
    rw [if_pos hadmits, ← hcomes.final_eq, final]
    cases answer (fun turn => host turn config.interfaces config.disks) request
      (Lookup.start store) <;> rfl
  -- There is no snapshot at first, so one that is there at last was taken meanwhile.
  simp only [resolved_blank, MibStore.changes_blank] at hsampled
  have hstart : ¬(Lookup.start store).snapshot?.isSome := Bool.false_ne_true
  rw [hsamples, hcounted, ← hsampled.trans (or_iff_right hstart)]
  by_cases hsome : l.snapshot?.isSome
  · rw [if_pos hsome]
    exact ⟨Nat.le_refl 1, iff_of_true rfl hsome⟩
  · rw [if_neg hsome]
    exact ⟨Nat.zero_le 1, iff_of_false Nat.zero_ne_one hsome⟩

/-! ## Replies -/

/-- What a binding says of the name that it answers: the element of the variable
    that is located for the name, which is that of a sample or of the value it
    was defined with, or a marker if there is none. -/
inductive Shows (instances : List (Tag × Oid × Cell)) (s : Snapshot)
    (position? : Oid → Option Nat) : Oid → Binding → Prop where
  | sampled {oid name : Oid} {i : Nat} {tag : Tag} {metric : Metric} {octets : List UInt8}
      (hposition : position? oid = some i)
      (hinstance : instances[i]? = some (tag, name, .metric metric))
      (htlv : (metric.sample s).tlv = .ok octets) :
      Shows instances s position? oid ⟨name, octets⟩
  | fixed {oid name : Oid} {i : Nat} {tag : Tag} {v : Value} {octets : List UInt8}
      (hposition : position? oid = some i)
      (hinstance : instances[i]? = some (tag, name, .fixed v)) (htlv : v.tlv = .ok octets) :
      Shows instances s position? oid ⟨name, octets⟩
  | missing {oid : Oid} {type : ValueType} (hposition : position? oid = none)
      (htype : type.isMarker) : Shows instances s position? oid (Binding.marker oid type)

/-- What a reply says of the names that were searched for. Unless it is a
    failure, which gives back names without values, its bindings show what is
    located for these names, one after another. -/
def ShowsAll (instances : List (Tag × Oid × Cell)) (s : Snapshot) (position? : Oid → Option Nat)
    (names : List Oid) (r : Response) : Prop :=
  (r.errorStatus ≠ .noError ∧ ∀ b ∈ r.bindings, b = Binding.marker b.oid .null) ∨
    r.errorStatus = .noError ∧ List.Forall₂ (Shows instances s position?) names r.bindings

theorem ShowsAll.take {instances : List (Tag × Oid × Cell)} {s : Snapshot}
    {position? : Oid → Option Nat} {names : List Oid} {r : Response}
    (h : ShowsAll instances s position? names r) (n : Nat) :
    ShowsAll instances s position? (names.take n) (r.take n) := by
  rcases h with ⟨hstatus, hnull⟩ | ⟨hstatus, hshows⟩
  · exact .inl ⟨hstatus, fun b hb => hnull b (List.mem_of_mem_take hb)⟩
  · exact .inr ⟨hstatus, List.forall₂_take n hshows⟩

theorem showsAll_failure (instances : List (Tag × Oid × Cell)) (s : Snapshot)
    (position? : Oid → Option Nat) (names : List Oid) (p : Pdu) (status : ErrorStatus)
    (hstatus : status ≠ .noError) (index : Nat) :
    ShowsAll instances s position? names (Response.failure p status index) := by
  refine .inl ⟨hstatus, fun b hb => ?_⟩
  obtain ⟨v, -, rfl⟩ := List.mem_map.1 hb
  rfl

section

variable {definitions : List Definition} {s s₀ : Snapshot} {capacity : Nat} {m store : MibStore}
  {position? : Oid → Option Nat} {oid : Oid} {b : Binding}
  (hbuild : MibStore.build definitions s₀ capacity = .ok m) (hblank : store.blank = m.blank)

include hbuild hblank

/-- The variable at the position that is located for a name shows what its cell
    says. -/
theorem shows_bindingAt (hb : (position? oid).bind (store.bindingAt s) = some b) :
    Shows (MibStore.instances definitions) s position? oid b := by
  obtain ⟨i, hposition, hb⟩ := Option.bind_eq_some_iff.1 hb
  rw [← store.bindingAt_blank, hblank, m.bindingAt_blank] at hb
  obtain ⟨tag, cell, hinstance, htlv⟩ := MibStore.bindingAt_of_build hbuild hb
  cases cell with
  | fixed v => exact .fixed hposition hinstance htlv
  | metric metric => exact .sampled hposition hinstance htlv

/-- A reply that answers name by name shows what is located for each, or the
    names are given back. -/
theorem reply_showsAll {find : Oid → Option Binding} {exception : ValueType}
    (hfind : ∀ oid, find oid = (position? oid).bind (store.bindingAt s))
    (hsome : ∀ oid, (find oid).isSome = (position? oid).isSome) (hexception : exception.isMarker)
    (p : Pdu) (version : Version) :
    ShowsAll (MibStore.instances definitions) s position?
      (asked position? (missing version exception) (names p))
      (reply p (answers find (missing version exception) 1 (names p))) := by
  cases h : answers find (missing version exception) 1 (names p) with
  | error i => exact showsAll_failure _ _ _ _ p .noSuchName nofun i
  | ok bs =>
    refine .inr ⟨rfl, ?_⟩
    rw [asked_of_answers hsome h]
    refine (answers_eq_ok h).imp fun oid b hanswer => ?_
    rcases hanswer with hfound | ⟨hnone, type, htype, rfl⟩
    · exact shows_bindingAt hbuild hblank ((hfind oid).symm.trans hfound)
    · have hposition : position? oid = none := by
        rw [← Option.not_isSome_iff_eq_none, ← hsome, hnone]
        exact Bool.false_ne_true
      -- Only the second version has markers.
      cases version with
      | v1 => cases htype
      | v2c =>
        cases htype
        exact .missing hposition hexception

/-- A second-version answer shows the variable after a name. -/
theorem shows_successor (oid : Oid) :
    Shows (MibStore.instances definitions) s store.findNext? oid (successor store s oid) := by
  rw [successor]
  cases hnext : store.next? s oid with
  | some b => exact shows_bindingAt hbuild hblank hnext
  | none =>
    refine .missing ?_ rfl
    rw [← Option.not_isSome_iff_eq_none, ← store.isSome_next? s, hnext]
    exact Bool.false_ne_true

/-- Every reply shows what is located for the names that were searched for. -/
theorem responseTo_showsAll {request : Message} {r : Response}
    (hr : responseTo store s request = some r) :
    ShowsAll (MibStore.instances definitions) s (located? store request) (searched store request)
      r := by
  obtain ⟨version, community, p⟩ := request
  obtain ⟨type, id, status, index, vs⟩ := p
  cases type with
  | getRequest =>
    cases hr
    exact reply_showsAll hbuild hblank (store.lookup?_eq_bind s) (store.isSome_lookup? s) rfl _ _
  | getNextRequest =>
    cases hr
    exact reply_showsAll hbuild hblank (fun _ => rfl) (store.isSome_next? s) rfl _ _
  | getBulkRequest =>
    cases version with
    | v1 => cases hr
    | v2c =>
      cases hr
      rw [← map_bulkNames]
      refine .inr ⟨rfl, List.forall₂_map_right_iff.2 ?_⟩
      exact List.forall₂_same.2 fun oid _ => shows_successor hbuild hblank oid
  | setRequest =>
    cases hr
    exact showsAll_failure _ _ _ _ _ _ (by cases version <;> nofun) _
  | response | trapV1 | informRequest | trapV2 | report => cases hr

end

/-- What it means that a packet is answered from one snapshot of the host, by an
    agent that exports some definitions. -/
structure FromOneSnapshot (definitions : List Definition) (config : AgentConfig) (host : Host)
    (store : MibStore) (packet : List UInt8) (o : Outcome) : Prop where
  samples_le : o.samples ≤ 1
  /-- It is sampled if the packet comes to a variable with a metric, and only
      then. -/
  samples_eq_one_iff : o.samples = 1 ↔ ∃ request : Message,
    Message.decode packet maxRequestVarbinds = .ok request ∧ admits config request ∧
      ∃ i ∈ resolved store request, ∃ tag name metric,
        (MibStore.instances definitions)[i]? = some (tag, name, .metric metric)
  /-- What is sent says, as of the first sampling, what is located for the names
      that are searched for, or for the first of them. -/
  reply : ∀ octets : List UInt8, o.result = .ok (some octets) →
    ∃ (request : Message) (r : Response) (n : Nat),
      Message.decode packet maxRequestVarbinds = .ok request ∧
      r.encode request maxPacketSize = .ok octets ∧
      ShowsAll (MibStore.instances definitions) (host 0 config.interfaces config.disks)
        (located? store request) ((searched store request).take n) r

/-- Every packet is answered from one snapshot: whatever the metrics in a store
    were last refreshed from, and whatever the host would say when it is sampled
    again. -/
theorem process_fromOneSnapshot {definitions : List Definition} {s₀ : Snapshot} {capacity : Nat}
    {m store : MibStore} (hbuild : MibStore.build definitions s₀ capacity = .ok m)
    (hsame : m.SameButSamples store) (config : AgentConfig) (host : Host) (packet : List UInt8)
    (peer : SocketAddr) :
    FromOneSnapshot definitions config host store packet
      (process config host store packet peer) := by
  have hblank : store.blank = m.blank := hsame.blank_eq
  have hchanges : ∀ i, store.Changes i ↔ ∃ tag name metric,
      (MibStore.instances definitions)[i]? = some (tag, name, .metric metric) := by
    intro i
    rw [← store.changes_blank, hblank, m.changes_blank, MibStore.changes_iff_of_build hbuild]
  refine ⟨?_, ?_, fun octets hresult => ?_⟩
  · rcases process_cases config host store packet peer with
      ⟨-, hsamples⟩ | ⟨request, hdecode, hadmits, -⟩
    · rw [hsamples]
      exact Nat.zero_le 1
    · exact (samples_of_admits hdecode hadmits host store peer).1
  · simp only [← hchanges]
    constructor
    · intro hsamples
      rcases process_cases config host store packet peer with
        ⟨-, hzero⟩ | ⟨request, hdecode, hadmits, -⟩
      · cases hzero.symm.trans hsamples
      · exact ⟨request, hdecode, hadmits,
          (samples_of_admits hdecode hadmits host store peer).2.1 hsamples⟩
    · rintro ⟨request, hdecode, hadmits, hchange⟩
      exact (samples_of_admits hdecode hadmits host store peer).2.2 hchange
  · rw [(process_eq config host store packet peer).1] at hresult
    obtain ⟨request, r, hdecode, -, hr, hencode⟩ := resultOf_eq_some hresult
    obtain ⟨n, -, hoctets⟩ :=
      exists_take_of_encodeReply (Message.received_of_decode hdecode).community hencode
    rw [responseTo_blank] at hr
    -- A reply that is cut still shows what is located for the first names.
    exact ⟨request, r.take n, n, hdecode, hoctets, (responseTo_showsAll hbuild hblank hr).take n⟩

/-- A host on which time passes between one sampling and the next. -/
def ticking : Host := fun turn _ _ => { agentUptime := UInt32.ofNat (300 + turn) }

/-- A second-version request, in the community "public", for the uptime of the
    agent, its description, and its uptime again. -/
def repeatedRequest : List UInt8 :=
  [0x30, 0x42, 0x02, 0x01, 0x01, 0x04, 0x06, 0x70, 0x75, 0x62, 0x6C, 0x69, 0x63, 0xA0, 0x35, 0x02,
    0x01, 0x01, 0x02, 0x01, 0x00, 0x02, 0x01, 0x00, 0x30, 0x2A, 0x30, 0x0C, 0x06, 0x08, 0x2B, 0x06,
    0x01, 0x02, 0x01, 0x01, 0x03, 0x00, 0x05, 0x00, 0x30, 0x0C, 0x06, 0x08, 0x2B, 0x06, 0x01, 0x02,
    0x01, 0x01, 0x01, 0x00, 0x05, 0x00, 0x30, 0x0C, 0x06, 0x08, 0x2B, 0x06, 0x01, 0x02, 0x01, 0x01,
    0x03, 0x00, 0x05, 0x00]

/-- Though time passes, the uptime of the agent is 300 in both places, and not
    7, as it was when it was last refreshed. -/
theorem process_repeatedRequest : ∃ m store : MibStore,
    MibStore.build (standardDefinitions {} {}) {} maxValues = .ok m ∧ m.SameButSamples store ∧
      (process {} ticking store repeatedRequest (.v4 ⟨127, 0, 0, 1⟩ 40000)).samples = 1 ∧
      (process {} ticking store repeatedRequest (.v4 ⟨127, 0, 0, 1⟩ 40000)).result =
        .ok (some [0x30, 0x46, 0x02, 0x01, 0x01, 0x04, 0x06, 0x70, 0x75, 0x62, 0x6C, 0x69, 0x63,
          0xA2, 0x39, 0x02, 0x01, 0x01, 0x02, 0x01, 0x00, 0x02, 0x01, 0x00, 0x30, 0x2E, 0x30, 0x0E,
          0x06, 0x08, 0x2B, 0x06, 0x01, 0x02, 0x01, 0x01, 0x03, 0x00, 0x43, 0x02, 0x01, 0x2C, 0x30,
          0x0C, 0x06, 0x08, 0x2B, 0x06, 0x01, 0x02, 0x01, 0x01, 0x01, 0x00, 0x04, 0x00, 0x30, 0x0E,
          0x06, 0x08, 0x2B, 0x06, 0x01, 0x02, 0x01, 0x01, 0x03, 0x00, 0x43, 0x02, 0x01, 0x2C]) ∧
      FromOneSnapshot (standardDefinitions {} {}) {} ticking store repeatedRequest
        (process {} ticking store repeatedRequest (.v4 ⟨127, 0, 0, 1⟩ 40000)) := by
  have hrun : (do
      let m ← MibStore.build (standardDefinitions {} {}) {} maxValues
      let o := process {} ticking (m.refreshAll { agentUptime := 7 }).1 repeatedRequest
        (.v4 ⟨127, 0, 0, 1⟩ 40000)
      return (o.samples, ← o.result)) =
      .ok (1, some [0x30, 0x46, 0x02, 0x01, 0x01, 0x04, 0x06, 0x70, 0x75, 0x62, 0x6C, 0x69, 0x63,
        0xA2, 0x39, 0x02, 0x01, 0x01, 0x02, 0x01, 0x00, 0x02, 0x01, 0x00, 0x30, 0x2E, 0x30, 0x0E,
        0x06, 0x08, 0x2B, 0x06, 0x01, 0x02, 0x01, 0x01, 0x03, 0x00, 0x43, 0x02, 0x01, 0x2C, 0x30,
        0x0C, 0x06, 0x08, 0x2B, 0x06, 0x01, 0x02, 0x01, 0x01, 0x01, 0x00, 0x04, 0x00, 0x30, 0x0E,
        0x06, 0x08, 0x2B, 0x06, 0x01, 0x02, 0x01, 0x01, 0x03, 0x00, 0x43, 0x02, 0x01, 0x2C]) := by
    decide +kernel
  obtain ⟨m, hbuild, hrun⟩ := except_bind_eq_ok.1 hrun
  obtain ⟨reply?, hresult, hrun⟩ := except_bind_eq_ok.1 hrun
  obtain ⟨hsamples, hreply⟩ := Prod.mk.inj (Except.ok.inj hrun)
  have hsame : m.SameButSamples (m.refreshAll { agentUptime := 7 }).1 :=
    MibStore.sameButSamples_of_blank_eq (m.refreshAll_blank _).2
  exact ⟨m, _, hbuild, hsame, hsamples, hreply ▸ hresult,
    process_fromOneSnapshot hbuild hsame {} ticking repeatedRequest _⟩

end Engine

end SnmpAgent
