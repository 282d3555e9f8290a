import SnmpAgent.Proofs.Engine.Processing
import SnmpAgent.Proofs.Mib.Provenance

/-!
# What requests do to the store

A request touches the store at one place only: where it answers with a
variable. So whatever that step maintains is maintained by the whole request,
whether it comes to a reply or fails half way. What it maintains is that every
element of a metric is a sample of a snapshot that was taken.

* `Maintains`: what a computation maintains, with a rule for each way to put
  computations together;
* `Engine.maintains_answer`: a request maintains what answering with one
  variable maintains;
* `Engine.process_cases`: what a packet does besides its reply;
* `Engine.sampledIn_process`: the elements of metrics after a request;
* `Run`, `Run.intact`: a store after any number of packets and refreshes.
-/

namespace SnmpAgent

/-! ## Maintaining -/

/-- The state in which a computation ends, with a result or with an error. -/
def final {α : Type} (x : Answering α) (l : Lookup) : Lookup :=
  match x l with
  | .ok _ l' => l'
  | .error _ l' => l'

/-- A computation that begins where `I` holds ends where `I` holds, even if it
    fails. -/
def Maintains {α : Type} (I : Lookup → Prop) (x : Answering α) : Prop := ∀ l, I l → I (final x l)

variable {I : Lookup → Prop} {α β : Type} {x : Answering α} {f : α → Answering β}

theorem maintains_pure (a : α) : Maintains I (pure a) := fun _ h => h

theorem maintains_throw (e : AgentError) : Maintains I (throw e : Answering α) := fun _ h => h

/-- The second part begins where the first one ended, unless that failed. -/
theorem Maintains.bind (hx : Maintains I x) (hf : ∀ a, Maintains I (f a)) :
    Maintains I (x >>= f) := by
  intro l hl
  have hfirst := hx l hl
  rw [final] at hfirst ⊢
  cases h : x l with
  | ok a l' =>
    rw [h] at hfirst
    rw [bind_of_ok h]
    exact hf a l' hfirst
  | error e l' =>
    rw [h] at hfirst
    rw [bind_of_error h]
    exact hfirst

theorem maintains_get {f : Lookup → Answering β} (h : ∀ l, Maintains I (f l)) :
    Maintains I (get >>= f) := fun l hl => h l l hl

theorem maintains_mapM (h : ∀ a, Maintains I (f a)) (as : List α) : Maintains I (as.mapM f) := by
  induction as with
  | nil => exact maintains_pure []
  | cons a as ih =>
    rw [List.mapM_cons]
    exact (h a).bind fun b => ih.bind fun bs => maintains_pure _

/-! ## Requests -/

namespace Engine

variable {source : Nat → Snapshot}

theorem maintains_collect {find : Oid → Answering (Option Binding)}
    (hfind : ∀ oid, Maintains I (find oid)) (marker : Option ValueType) (position : Nat)
    (oids : List Oid) : Maintains I (collect find marker position oids) := by
  induction oids generalizing position with
  | nil => exact maintains_pure _
  | cons oid oids ih =>
    refine (hfind oid).bind fun b? => ?_
    split
    · exact maintains_pure _
    all_goals exact (ih (position + 1)).bind fun _ => maintains_pure _

theorem maintains_finish (request : Message) (r : Response) : Maintains I (finish request r) := by
  rw [finish]
  split
  · exact maintains_pure _
  · exact maintains_throw _

theorem maintains_finishBulk (request : Message) (r : Response) :
    Maintains I (finishBulk request r) := by
  unfold finishBulk
  split
  · exact maintains_pure _
  · exact maintains_throw _

section

variable (h : ∀ i, Maintains I (Lookup.binding source i))

include h

theorem maintains_exact (oid : Oid) : Maintains I (Lookup.exact source oid) := by
  refine maintains_get fun l => ?_
  dsimp only
  split
  · exact maintains_pure none
  · split_ifs
    · exact h _
    · exact maintains_pure none
    · exact h _

theorem maintains_next (oid : Oid) : Maintains I (Lookup.next source oid) := by
  refine maintains_get fun l => ?_
  split
  · exact maintains_pure none
  · exact h _

theorem maintains_advance (slot : Slot) : Maintains I (advance source slot) := by
  rw [advance]
  split_ifs
  · exact maintains_pure _
  · refine (maintains_next h slot.oid).bind fun b? => ?_
    split <;> exact maintains_pure _

theorem maintains_rows (repetitions room : Nat) (slots : List Slot) :
    Maintains I (rows source repetitions room slots) := by
  induction repetitions generalizing room slots with
  | zero => exact maintains_pure []
  | succ repetitions ih =>
    rw [rows]
    split_ifs
    · exact maintains_pure []
    · exact (maintains_mapM (maintains_advance h) _).bind fun row =>
        (ih _ _).bind fun others => maintains_pure _

theorem maintains_getBulk (p : Pdu) : Maintains I (getBulk source p) :=
  (maintains_mapM (maintains_advance h) _).bind fun _ =>
    (maintains_rows h _ _ _).bind fun _ => maintains_pure _

/-- A request maintains what answering with one variable maintains. -/
theorem maintains_answer (request : Message) : Maintains I (answer source request) := by
  obtain ⟨version, community, p⟩ := request
  obtain ⟨type, id, status, index, vs⟩ := p
  cases type with
  | getRequest =>
    exact ((maintains_collect (maintains_exact h) _ _ _).bind fun _ => maintains_pure _).bind
      fun r => maintains_finish _ r
  | getNextRequest =>
    exact ((maintains_collect (maintains_next h) _ _ _).bind fun _ => maintains_pure _).bind
      fun r => maintains_finish _ r
  | getBulkRequest =>
    cases version with
    | v1 => exact maintains_pure none
    | v2c => exact (maintains_getBulk h _).bind fun r => maintains_finishBulk _ r
  | setRequest => exact maintains_finish _ _
  | response | trapV1 | informRequest | trapV2 | report => exact maintains_pure none

end

end Engine

/-! ## Samples -/

namespace Lookup

/-- Every element of a metric is a sample of one of the `earlier` snapshots or
    of one taken for this request, and so is what the request is answered from. -/
structure SampledIn (source : Nat → Snapshot) (earlier : List Snapshot) (l : Lookup) : Prop where
  store : l.store.SampledIn (earlier ++ (List.range l.samples).map source)
  /-- The request is answered from a snapshot that was taken for it. -/
  snapshot : ∀ s, l.snapshot? = some s → s ∈ (List.range l.samples).map source

variable {source : Nat → Snapshot} {earlier : List Snapshot} {l l' : Lookup}

/-- Taking a snapshot adds it to those that were taken. -/
theorem SampledIn.sample (h : l.SampledIn source earlier) : ∃ (s : Snapshot) (l' : Lookup),
    Lookup.sample source l = .ok s l' ∧ l'.SampledIn source earlier ∧
      s ∈ (List.range l'.samples).map source := by
  rw [Lookup.sample, get_bind]
  cases hs : l.snapshot? with
  | some s => exact ⟨s, l, rfl, h, h.snapshot s hs⟩
  | none =>
    have hmem : source l.samples ∈ (List.range (l.samples + 1)).map source :=
      List.mem_map_of_mem (List.mem_range.2 (Nat.lt_succ_self l.samples))
    refine ⟨source l.samples, _, rfl, ⟨h.store.mono ?_, ?_⟩, hmem⟩
    · refine List.append_subset.2 ⟨List.subset_append_left _ _, fun s hs => ?_⟩
      refine List.mem_append_right _ (List.map_subset source ?_ hs)
      exact List.range_subset.2 (Nat.le_succ _)
    · rintro s ⟨⟩
      exact hmem

/-- A refresh from such a snapshot writes no element but a sample of it. -/
theorem SampledIn.refresh (h : l.SampledIn source earlier) {s : Snapshot}
    (hs : s ∈ (List.range l.samples).map source) (i : Nat) :
    (final (Lookup.refresh i s) l).SampledIn source earlier := by
  rw [final, Lookup.refresh, get_bind]
  cases hm : l.store.refresh i s with
  | ok m => exact ⟨h.store.refresh (List.mem_append_right earlier hs) hm, h.snapshot⟩
  | error e => exact h

/-- Answering with a variable writes no element but a sample. -/
theorem maintains_binding (source : Nat → Snapshot) (earlier : List Snapshot) (i : Nat) :
    Maintains (SampledIn source earlier) (binding source i) := by
  have hrefresh : Maintains (SampledIn source earlier)
      (do Lookup.refresh i (← Lookup.sample source)) := by
    intro l hl
    obtain ⟨s, l', hsample, hl', hs⟩ := hl.sample
    rw [final, bind_of_ok hsample]
    exact hl'.refresh hs i
  refine maintains_get fun l => ?_
  split_ifs
  · dsimp only
    rw [← bind_assoc]
    exact hrefresh.bind fun _ => maintains_get fun _ => maintains_pure _
  · exact maintains_get fun _ => maintains_pure _

end Lookup

namespace Engine

/-- A packet does to the store and to the host what answering its request does,
    if that is admitted, and nothing otherwise. -/
theorem process_cases (config : AgentConfig) (host : Host) (store : MibStore) (packet : List UInt8)
    (peer : SocketAddr) :
    ((process config host store packet peer).store = store ∧
        (process config host store packet peer).samples = 0) ∨
      ∃ request, Message.decode packet maxRequestVarbinds = .ok request ∧ admits config request ∧
        ∃ l, final (answer (fun turn => host turn config.interfaces config.disks) request)
            (Lookup.start store) = l ∧
          (process config host store packet peer).store = l.store ∧
          (process config host store packet peer).samples = l.samples := by
  rw [process]
  cases Message.decode packet maxRequestVarbinds with
  | error e => exact .inl ⟨rfl, rfl⟩
  | ok request =>
    dsimp only
    split_ifs with hadmits
    · refine .inr ⟨request, rfl, hadmits, _, rfl, ?_⟩
      rw [final]
      cases answer (fun turn => host turn config.interfaces config.disks) request
        (Lookup.start store) with
      | ok reply? l => exact ⟨rfl, rfl⟩
      | error e l => exact ⟨rfl, rfl⟩
    · exact .inl ⟨rfl, rfl⟩

/-- The snapshots that are taken of a host while a packet is processed. -/
def taken (config : AgentConfig) (host : Host) (o : Outcome) : List Snapshot :=
  (List.range o.samples).map fun turn => host turn config.interfaces config.disks

/-- A packet adds the snapshots that were taken meanwhile, also if its request
    fails. -/
theorem sampledIn_process {earlier : List Snapshot} {store : MibStore}
    (h : store.SampledIn earlier) (config : AgentConfig) (host : Host) (packet : List UInt8)
    (peer : SocketAddr) : (process config host store packet peer).store.SampledIn
      (earlier ++ taken config host (process config host store packet peer)) := by
  have hsilent : store.SampledIn (earlier ++ []) := by rwa [List.append_nil]
  rw [taken]
  rcases process_cases config host store packet peer with
    ⟨hstore, hsamples⟩ | ⟨request, -, -, l, hfinal, hstore, hsamples⟩
  · rw [hstore, hsamples]
    exact hsilent
  · have hstart : (Lookup.start store).SampledIn
        (fun turn => host turn config.interfaces config.disks) earlier :=
      ⟨hsilent, fun s hs => by cases hs⟩
    have hafter := maintains_answer (Lookup.maintains_binding _ earlier) request _ hstart
    rw [hfinal] at hafter
    rw [hstore, hsamples]
    exact hafter.store

end Engine

/-! ## Runs -/

/-- What has become of a store after packets were processed and variables
    refreshed, and which snapshots were taken meanwhile. -/
inductive Run (m : MibStore) : List Snapshot → MibStore → Prop where
  | start : Run m [] m
  | process {taken : List Snapshot} {store : MibStore} (h : Run m taken store)
      (config : AgentConfig) (host : Host) (packet : List UInt8) (peer : SocketAddr) :
      Run m (taken ++ Engine.taken config host (Engine.process config host store packet peer))
        (Engine.process config host store packet peer).store
  | refresh {taken : List Snapshot} {store : MibStore} (h : Run m taken store) (s : Snapshot) :
      Run m (taken ++ [s]) (store.refreshAll s).1

namespace Run

variable {m store : MibStore} {taken : List Snapshot}

theorem reaches (h : Run m taken store) : Reaches m store := by
  induction h with
  | start => exact .refl
  | process _ config host packet peer ih => exact ih.tail (.process config host _ packet peer)
  | refresh _ s ih => exact ih.tail (.refresh _ s)

/-- Nothing that happens writes an element of a metric that is no sample. -/
theorem sampledIn {earlier : List Snapshot} (hm : m.SampledIn earlier) (h : Run m taken store) :
    store.SampledIn (earlier ++ taken) := by
  induction h with
  | start => rwa [List.append_nil]
  | process _ config host packet peer ih =>
    rw [← List.append_assoc]
    exact Engine.sampledIn_process ih config host packet peer
  | refresh _ s ih =>
    rw [← List.append_assoc]
    exact MibStore.sampledIn_refreshAll _ (List.mem_append_right _ (List.mem_singleton_self s))

/-- A store stays intact whatever happens to it: packets and refreshes change
    the elements of metrics only, which are samples of the snapshot that the
    store was built from, or of one taken since. No refresh ever fails, in a
    request or otherwise. -/
theorem intact {definitions : List Definition} (hnames : MibStore.NamesValid definitions)
    {s : Snapshot} {capacity : Nat} (hbuild : MibStore.build definitions s capacity = .ok m)
    (h : Run m taken store) : MibStore.Intact m (s :: taken) store ∧
      ∀ (store : MibStore) (s : Snapshot), (store.refreshAll s).2 = .ok () ∧
        ∀ i, ∃ store', store.refresh i s = .ok store' := by
  refine ⟨MibStore.intact_of_blank_eq hbuild hnames h.reaches.blank
    (h.sampledIn (MibStore.sampledIn_of_build hbuild)), fun store s => ?_⟩
  refine ⟨(store.refreshAll_blank s).1, fun i => ?_⟩
  obtain ⟨store', hstore', -⟩ := store.refresh_blank i s
  exact ⟨store', hstore'⟩

/-- A store of the standard variables is intact after a request for the uptime
    of the agent, which takes a snapshot, and a refresh from another one. -/
theorem intact_uptimeRequest : ∃ m store : MibStore,
    MibStore.NamesValid (standardDefinitions {} {}) ∧
    MibStore.build (standardDefinitions {} {}) {} maxValues = .ok m ∧
    Run m [Snapshot.align { agentUptime := 300 } [] ["/"], { agentUptime := 700 }] store ∧
    MibStore.Intact m
      [{}, Snapshot.align { agentUptime := 300 } [] ["/"], { agentUptime := 700 }] store ∧
      ∀ (store : MibStore) (s : Snapshot), (store.refreshAll s).2 = .ok () ∧
        ∀ i, ∃ store', store.refresh i s = .ok store' := by
  have hnames : MibStore.NamesValid (standardDefinitions {} {}) :=
    MibStore.namesValid_standardDefinitions (by decide) {}
  have hrun : (do
      let m ← MibStore.build (standardDefinitions {} {}) {} maxValues
      return (Engine.process {} (Host.static { agentUptime := 300 }) m Engine.uptimeRequest
        (.v4 ⟨127, 0, 0, 1⟩ 40000)).samples) = .ok 1 := by
    decide +kernel
  obtain ⟨m, hbuild, hsamples⟩ := except_bind_eq_ok.1 hrun
  have hprocess := Run.start (m := m) |>.process {} (Host.static { agentUptime := 300 })
    Engine.uptimeRequest (.v4 ⟨127, 0, 0, 1⟩ 40000)
  rw [Engine.taken, Except.ok.inj hsamples] at hprocess
  have hrefresh := hprocess.refresh { agentUptime := 700 }
  exact ⟨m, _, hnames, hbuild, hrefresh, intact hnames hbuild hrefresh⟩

end Run

end SnmpAgent
