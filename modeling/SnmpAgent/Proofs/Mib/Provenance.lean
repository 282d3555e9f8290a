import SnmpAgent.Proofs.Mib.Legibility
import SnmpAgent.Proofs.Mib.Ascent

/-!
# Where the elements of variables come from

The element of a variable is written when the store is built and whenever the
variable is refreshed. A refresh does not look at the declared tag again, so
that the element still has it rests on the metrics: no snapshot changes the
type of a metric.

* `MibStore.SampledIn`: the elements of metrics are samples of given snapshots;
* `MibStore.SampledIn.refresh`, `MibStore.sampledIn_refreshAll`: a refresh
  writes samples of its snapshot;
* `MibStore.coded_of_build`: what a store that was built holds.
-/

namespace SnmpAgent

/-- The element of a variable is that of a value that can be read back and has
    the declared tag. -/
def Entry.Coded (e : Entry) : Prop :=
  ∃ v : Value, v.Legible ∧ v.tag = e.tag ∧ v.tlv = .ok e.encoded

/-- The element of a value that can be read back is read to its end, as that
    value. -/
theorem Entry.read_of_tlv {e : Entry} {v : Value} (hv : v.Legible) (htlv : v.tlv = .ok e.encoded) :
    Value.read (Cursor.ofMessage e.encoded) = .ok v.repacked ⟨e.encoded.length, []⟩ ∧
      e.value = .ok v.repacked := by
  have hread := Value.takes_read hv htlv 0 []
  rw [List.append_nil, Nat.zero_add] at hread
  refine ⟨hread, ?_⟩
  rw [value, Cursor.ofMessage, hread]

/-- Such an element is read to its end, as a value with the declared tag. -/
theorem Entry.Coded.exists_value {e : Entry} (h : e.Coded) : ∃ v : Value,
    Value.read (Cursor.ofMessage e.encoded) = .ok v ⟨e.encoded.length, []⟩ ∧ e.value = .ok v ∧
      v.tag = e.tag := by
  obtain ⟨v, hv, htag, htlv⟩ := h
  obtain ⟨hread, hvalue⟩ := Entry.read_of_tlv hv htlv
  refine ⟨v.repacked, hread, hvalue, ?_⟩
  rw [Value.tag, v.type_repacked]
  exact htag

namespace MibStore

variable {taken : List Snapshot} {m m' : MibStore} {s : Snapshot}

/-- The elements of metrics are samples of snapshots that were taken. -/
def SampledIn (taken : List Snapshot) (m : MibStore) : Prop :=
  ∀ i oid e metric, m.get? i = some (oid, e) → e.metric? = some metric →
    ∃ s ∈ taken, (metric.sample s).tlv = .ok e.encoded

theorem SampledIn.mono {taken' : List Snapshot} (h : m.SampledIn taken) (hsub : taken ⊆ taken') :
    m.SampledIn taken' := by
  intro i oid e metric hentry hmetric
  obtain ⟨s, hs, htlv⟩ := h i oid e metric hentry hmetric
  exact ⟨s, hsub hs, htlv⟩

/-- A refresh from one of the snapshots writes a sample of it, and nothing
    else. -/
theorem SampledIn.refresh (h : m.SampledIn taken) (hs : s ∈ taken) {i : Nat}
    (hrefresh : m.refresh i s = .ok m') : m'.SampledIn taken := by
  rw [MibStore.refresh] at hrefresh
  cases hi : m.get? i with
  | none =>
    rw [hi] at hrefresh
    cases hrefresh
    exact h
  | some p =>
    obtain ⟨oid, e⟩ := p
    rw [hi] at hrefresh
    dsimp only at hrefresh
    rw [e.refresh_eq s] at hrefresh
    cases hrefresh
    intro j oid' e' metric hj hmetric
    rw [get?, OidTable.get?, OidTable.set, List.getElem?_modify] at hj
    obtain ⟨p, hp, hj⟩ := Option.map_eq_some_iff.1 hj
    split_ifs at hj with hij
    · -- The entry that was refreshed.
      subst hij
      cases hi.symm.trans hp
      cases hj
      exact ⟨s, hs, Entry.tlv_sample_asOf hmetric⟩
    · cases hj
      exact h j _ _ metric hp hmetric

/-- After a refresh of all variables all are samples of its snapshot. -/
theorem sampledIn_refreshAll (m : MibStore) (hs : s ∈ taken) :
    (m.refreshAll s).1.SampledIn taken := by
  rw [refreshAll_eq]
  intro i oid e metric hentry hmetric
  obtain ⟨⟨oid', e'⟩, -, heq⟩ := List.mem_map.1 (List.mem_of_getElem? hentry)
  cases heq
  exact ⟨s, hs, Entry.tlv_sample_asOf hmetric⟩

/-! ## Built stores -/

/-- The names that are fixed values of some definitions are valid. -/
def NamesValid (definitions : List Definition) : Prop :=
  ∀ d ∈ definitions, ∀ oid, Cell.fixed (.objectIdentifier oid) ∈ d.rows.cells →
    oid.validate = .ok ()

theorem NamesValid.legible {definitions : List Definition} (h : NamesValid definitions)
    {d : Definition} (hd : d ∈ definitions) {cell : Cell} (hcell : cell ∈ d.rows.cells) :
    cell.Legible := by
  cases cell with
  | metric m => exact Cell.legible_metric m
  | fixed v =>
    refine Cell.legible_fixed ?_
    cases v with
    | objectIdentifier oid => exact h d hd oid hcell
    | _ => trivial

/-- The only name among the standard values is that of the vendor, which has
    been validated. -/
theorem namesValid_standardDefinitions {c : AgentConfig} (h : c.validate = .ok ()) (s : Snapshot) :
    NamesValid (standardDefinitions c s) :=
  fun d hd _ hcell => (legible_standardDefinitions h s d hd).cells _ hcell s

variable {definitions : List Definition} {capacity : Nat}

/-- A store that was built holds the elements of values. -/
theorem coded_of_build (hbuild : build definitions s capacity = .ok m)
    (hnames : NamesValid definitions) {i : Nat} {oid : Oid} {e : Entry}
    (hentry : m.get? i = some (oid, e)) : e.Coded := by
  obtain ⟨d, hd, cell, hcell, hmade⟩ := exists_instance_of_build hbuild hentry
  obtain ⟨-, -, htag, htlv, hdeclared, -⟩ := entry_eq_ok.1 hmade
  exact ⟨cell.value s, hnames.legible hd (Definition.mem_instances hcell).2 s,
    htag.trans hdeclared.symm, htlv⟩

/-- Where there is a metric, it has the declared tag, and the element is the
    first sample. -/
theorem metric_of_build (hbuild : build definitions s capacity = .ok m) {i : Nat} {oid : Oid}
    {e : Entry} (hentry : m.get? i = some (oid, e)) {metric : Metric}
    (hmetric : e.metric? = some metric) :
    metric.type.tag = e.tag ∧ (metric.sample s).tlv = .ok e.encoded := by
  obtain ⟨d, -, cell, -, hmade⟩ := exists_instance_of_build hbuild hentry
  obtain ⟨-, -, htag, htlv, hdeclared, hcell⟩ := entry_eq_ok.1 hmade
  cases cell with
  | fixed v => cases hcell.symm.trans hmetric
  | metric metric' =>
    cases hcell.symm.trans hmetric
    refine ⟨?_, htlv⟩
    rw [← metric.type_sample s, hdeclared]
    exact htag

theorem sampledIn_of_build (hbuild : build definitions s capacity = .ok m) : m.SampledIn [s] :=
  fun _ _ _ _ hentry hmetric =>
    ⟨s, List.mem_singleton_self s, (metric_of_build hbuild hentry hmetric).2⟩

/-! ## What stays -/

/-- What is left of a built store when its metrics have been refreshed:
    everything that is no element of a metric, and every such element is a
    sample of a snapshot that was taken. -/
structure Intact (built : MibStore) (taken : List Snapshot) (store : MibStore) : Prop where
  length : store.length = built.length
  /-- Every entry stands where it was built, with its name, its tag and its
      metric, and a fixed entry also with its element. -/
  entries : ∀ i oid e, built.get? i = some (oid, e) → ∃ e', store.get? i = some (oid, e') ∧
    e'.tag = e.tag ∧ e'.metric? = e.metric? ∧ (e.metric? = none → e'.encoded = e.encoded)
  ascending : store.table.Ascending
  /-- Every element is read to its end, as a value with the declared tag. -/
  values : ∀ i oid e, store.get? i = some (oid, e) → ∃ v : Value,
    Value.read (Cursor.ofMessage e.encoded) = .ok v ⟨e.encoded.length, []⟩ ∧ e.value = .ok v ∧
      v.tag = e.tag
  sampled : store.SampledIn taken

/-- The blank entry tells all but the element of a metric. -/
theorem eq_of_blank_eq {e e' : Entry} (h : e'.blank = e.blank) : e'.tag = e.tag ∧
    e'.metric? = e.metric? ∧ (e.metric? = none → e'.encoded = e.encoded) := by
  obtain ⟨tag, encoded, metric?⟩ := e
  obtain ⟨tag', encoded', metric?'⟩ := e'
  cases metric? <;> cases metric?' <;> simp_all [Entry.blank]

variable {store : MibStore}

/-- Stores with the same blank store have the same entries, but for the elements
    of metrics. -/
theorem exists_entry_of_blank_eq (h : store.blank = m.blank) {i : Nat} {oid : Oid} {e : Entry}
    (hentry : m.get? i = some (oid, e)) :
    ∃ e', store.get? i = some (oid, e') ∧ e'.blank = e.blank := by
  have hblank := store.get?_blank i
  rw [h, m.get?_blank i, hentry] at hblank
  obtain ⟨⟨oid', e'⟩, hentry', heq⟩ := Option.map_eq_some_iff.1 hblank.symm
  obtain ⟨rfl, heq⟩ := Prod.mk.inj heq
  exact ⟨e', hentry', heq⟩

theorem ascending_blank (m : MibStore) : m.blank.table.Ascending ↔ m.table.Ascending :=
  List.pairwise_map

/-- The blank store and the samples tell that a store is intact. -/
theorem intact_of_blank_eq (hbuild : build definitions s capacity = .ok m)
    (hnames : NamesValid definitions) (hblank : store.blank = m.blank)
    (hsampled : store.SampledIn taken) : Intact m taken store where
  length := by rw [← store.length_blank, hblank, m.length_blank]
  entries i oid e hentry := by
    obtain ⟨e', hentry', heq⟩ := exists_entry_of_blank_eq hblank hentry
    exact ⟨e', hentry', eq_of_blank_eq heq⟩
  ascending := by
    rw [← ascending_blank, hblank, ascending_blank]
    exact ascending_of_build hbuild
  values i oid e hentry := by
    refine Entry.Coded.exists_value ?_
    obtain ⟨e₀, hentry₀, heq⟩ := exists_entry_of_blank_eq hblank.symm hentry
    obtain ⟨htag, hmetric₀, hfixed⟩ := eq_of_blank_eq heq
    cases hmetric : e.metric? with
    | none =>
      -- A fixed element is still the one that was built.
      obtain ⟨v, hv, hvtag, htlv⟩ := coded_of_build hbuild hnames hentry₀
      exact ⟨v, hv, hvtag.trans htag, hfixed hmetric ▸ htlv⟩
    | some metric =>
      -- The element of a metric is a sample, whose type is that of the metric.
      obtain ⟨s', -, htlv⟩ := hsampled i oid e metric hentry hmetric
      have hdeclared := (metric_of_build hbuild hentry₀ (hmetric₀.trans hmetric)).1
      refine ⟨metric.sample s', metric.legible_sample s', ?_, htlv⟩
      rw [Value.tag, metric.type_sample s', hdeclared, htag]
  sampled := hsampled

end MibStore

end SnmpAgent
