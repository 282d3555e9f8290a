import SnmpAgent.Proofs.Config.Limits
import SnmpAgent.Proofs.Mib.Building
import SnmpAgent.Proofs.Engine.Lookups
import SnmpAgent.Proofs.Engine.Encoding
import SnmpAgent.Mib.Standard

/-!
# Legible variables

A variable is *legible* if its name is valid and, whatever the snapshot, its
element is that of a value that can be read back. A store is as legible as the
definitions that it was built of, and the standard definitions of a valid
configuration are: their names are short paths below standard nodes, and the
only name among their values is the one of the vendor, which the configuration
has validated.

* `MibStore.legible_of_build`: the store of legible definitions;
* `legible_standardDefinitions`: the standard definitions;
* `MibStore.Legible.denotes_lookup?`, `MibStore.Legible.denotes_next?`: what is
  found in a legible store denotes a varbind.
-/

namespace SnmpAgent

/-! ## Definitions -/

/-- The values of a cell can be read back. -/
def Cell.Legible (cell : Cell) : Prop := ∀ s, (cell.value s).Legible

theorem Cell.legible_metric (m : Metric) : (Cell.metric m).Legible := m.legible_sample

theorem Cell.legible_fixed {v : Value} (h : v.Legible) : (Cell.fixed v).Legible := fun _ => h

/-- The snapshot is not seen in the type of a cell. -/
theorem Cell.type_value (cell : Cell) (s₁ s₂ : Snapshot) :
    (cell.value s₁).type = (cell.value s₂).type := by
  cases cell with
  | fixed v => rfl
  | metric m => exact (m.type_sample s₁).trans (m.type_sample s₂).symm

/-- The cells of a definition. -/
def Rows.cells : Rows → List Cell
  | .scalar cell => [cell]
  | .table cells => cells

/-- There is room for a column and a row below a node. -/
def Oid.IsNode (root : Oid) : Prop :=
  root.validate = .ok () ∧ root.length + 2 ≤ Oid.maxSubids

instance (root : Oid) : Decidable root.IsNode := inferInstanceAs (Decidable (_ ∧ _))

/-- Names below a node are valid. -/
theorem Oid.IsNode.validate_join {root : Oid} (h : root.IsNode) (column row : UInt32) :
    (root.join [column, row]).validate = .ok () := by
  obtain ⟨hvalid, hlength⟩ := h
  obtain ⟨first, second, rest, rfl, -, hpack⟩ := validate_eq_ok.1 hvalid
  refine validate_eq_ok.2 ⟨first, second, rest ++ [column, row], rfl, ?_, hpack⟩
  simpa [length] using hlength

/-- A definition of cells that can be read back, below a node. -/
structure Definition.Legible (d : Definition) : Prop where
  root : d.root.IsNode
  cells : ∀ cell ∈ d.rows.cells, cell.Legible

namespace Definition

/-- Rows of a table column have their names below its node, and its cells as
    cells. -/
theorem mem_rowsFrom {root : Oid} {column : UInt32} {row : Nat} {cells : List Cell}
    {p : Oid × Cell} (h : p ∈ rowsFrom root column row cells) :
    (∃ row : UInt32, p.1 = root.join [column, row]) ∧ p.2 ∈ cells := by
  induction cells generalizing row with
  | nil => cases h
  | cons cell cells ih =>
    rw [rowsFrom] at h
    rcases List.mem_cons.1 h with rfl | h
    · exact ⟨⟨_, rfl⟩, List.mem_cons_self⟩
    · exact ⟨(ih h).1, List.mem_cons_of_mem cell (ih h).2⟩

/-- The instances of a definition have their names below its node, and its cells
    as cells. -/
theorem mem_instances {d : Definition} {p : Oid × Cell} (h : p ∈ d.instances) :
    (∃ row : UInt32, p.1 = d.root.join [d.column, row]) ∧ p.2 ∈ d.rows.cells := by
  rw [Definition.instances] at h
  cases hrows : d.rows with
  | scalar cell =>
    rw [hrows] at h
    cases List.mem_singleton.1 h
    exact ⟨⟨0, rfl⟩, List.mem_singleton_self cell⟩
  | table cells =>
    rw [hrows] at h
    exact mem_rowsFrom h

/-- The instances of a legible definition have valid names and values that can
    be read back. -/
theorem Legible.instances {d : Definition} (h : d.Legible) {p : Oid × Cell}
    (hp : p ∈ d.instances) : p.1.validate = .ok () ∧ p.2.Legible := by
  obtain ⟨⟨row, hrow⟩, hcell⟩ := mem_instances hp
  exact ⟨hrow ▸ h.root.validate_join d.column row, h.cells p.2 hcell⟩

end Definition

/-! ## The standard definitions -/

namespace Standard

variable {root : Oid} {column : UInt32}

theorem legible_sampled (h : root.IsNode) (type : ValueType) (m : Metric) :
    (sampled root column type m).Legible :=
  ⟨h, fun _ hcell => List.mem_singleton.1 hcell ▸ Cell.legible_metric m⟩

theorem legible_constant (h : root.IsNode) (type : ValueType) {v : Value} (hv : v.Legible) :
    (constant root column type v).Legible :=
  ⟨h, fun _ hcell => List.mem_singleton.1 hcell ▸ Cell.legible_fixed hv⟩

/-- A table column of fixed values that can be read back. -/
theorem legible_table {α : Type} (h : root.IsNode) (type : ValueType) (rows : List α)
    {value : α → Value} (hvalue : ∀ a, (value a).Legible) :
    (Definition.table root column type (rows.map fun a => .fixed (value a))).Legible := by
  refine ⟨h, fun cell hcell => ?_⟩
  obtain ⟨a, -, rfl⟩ := List.mem_map.1 hcell
  exact Cell.legible_fixed (hvalue a)

theorem legible_sampledRows (h : root.IsNode) (type : ValueType) (rows : Nat) (m : Nat → Metric) :
    (sampledRows root column type rows m).Legible := by
  refine ⟨h, fun cell hcell => ?_⟩
  obtain ⟨row, -, rfl⟩ := List.mem_map.1 hcell
  exact Cell.legible_metric (m row)

theorem legible_rowNumbers (h : root.IsNode) (rows : Nat) :
    (rowNumbers root column rows).Legible :=
  legible_table h .integer (List.range rows) fun _ => trivial

theorem legible_texts (h : root.IsNode) (rows : List String) :
    (texts root column rows).Legible :=
  legible_table h .octetString rows fun _ => trivial

theorem legible_systemGroup {c : AgentConfig} (hvendor : c.vendor.validate = .ok ())
    (s : Snapshot) : ∀ d ∈ systemGroup c s, d.Legible := by
  have hroot : system.IsNode := by decide
  have htext : ∀ text, (Value.ofString text).Legible := fun _ => trivial
  simp [systemGroup, legible_sampled hroot, legible_constant hroot _ (htext _),
    legible_constant hroot _ (v := .objectIdentifier _) hvendor]

theorem legible_interfacesGroup (c : AgentConfig) (s : Snapshot) :
    ∀ d ∈ interfacesGroup c s, d.Legible := by
  have hroot : interfaces.IsNode := by decide
  have hentry : ifEntry.IsNode := by decide
  have hcolumn : ∀ column type (figure : Interface → Value), (∀ i, (figure i).Legible) →
      (ifColumn c s column type figure).Legible := fun column type figure hfigure =>
    legible_table hentry type _ fun _ => hfigure _
  have hmetric : ∀ column type field, (ifMetric c column type field).Legible :=
    fun column type field => legible_sampledRows hentry type _ _
  simp only [interfacesGroup, List.forall_mem_cons, legible_rowNumbers hentry,
    legible_texts hentry, hmetric, true_and]
  refine ⟨legible_constant hroot .integer trivial, ?_, ?_, ?_, ?_, List.forall_mem_nil _⟩
  all_goals exact hcolumn _ _ _ fun _ => trivial

theorem legible_diskGroup (c : AgentConfig) : ∀ d ∈ diskGroup c, d.Legible := by
  have hentry : dskEntry.IsNode := by decide
  have hmetric : ∀ column type field, (dskMetric c column type field).Legible :=
    fun column type field => legible_sampledRows hentry type _ _
  simp [diskGroup, legible_rowNumbers hentry, legible_texts hentry, hmetric]

theorem legible_loadGroup : ∀ d ∈ loadGroup, d.Legible := by
  have hentry : laEntry.IsNode := by decide
  simp [loadGroup, legible_rowNumbers hentry, legible_texts hentry, legible_sampledRows hentry]

/-- The other groups consist of scalars that are sampled. -/
theorem legible_scalars : ∀ d ∈ ipGroup ++ tcpGroup ++ udpGroup ++ hostGroup ++ memoryGroup ++
    cpuGroup, d.Legible := by
  have hip : ip.IsNode := by decide
  have htcp : tcp.IsNode := by decide
  have hudp : udp.IsNode := by decide
  have hhost : hrSystem.IsNode := by decide
  have hmemory : memory.IsNode := by decide
  have hcpu : systemStats.IsNode := by decide
  simp [ipGroup, tcpGroup, udpGroup, hostGroup, memoryGroup, cpuGroup, legible_sampled hip,
    legible_sampled htcp, legible_sampled hudp, legible_sampled hhost, legible_sampled hmemory,
    legible_sampled hcpu]

end Standard

/-- The standard definitions of a valid configuration are legible. -/
theorem legible_standardDefinitions {c : AgentConfig} (h : c.validate = .ok ()) (s : Snapshot) :
    ∀ d ∈ standardDefinitions c s, d.Legible := by
  have hscalars := Standard.legible_scalars
  simp only [List.forall_mem_append] at hscalars
  obtain ⟨⟨⟨⟨⟨hip, htcp⟩, hudp⟩, hhost⟩, hmemory⟩, hcpu⟩ := hscalars
  simp only [standardDefinitions, List.forall_mem_append]
  exact ⟨⟨⟨⟨⟨⟨⟨⟨⟨Standard.legible_systemGroup (AgentConfig.validate_eq_ok_iff.1 h).vendor s,
    Standard.legible_interfacesGroup c s⟩, hip⟩, htcp⟩, hudp⟩, hhost⟩, hmemory⟩,
    Standard.legible_diskGroup c⟩, Standard.legible_loadGroup⟩, hcpu⟩

/-! ## Stores -/

/-- What stands in for a missing value is a marker. -/
theorem Value.isMarker_of_isException {v : Value} (h : v.isException) : v.type.isMarker := by
  cases v <;> first | rfl | cases h

namespace MibStore

/-- Names are valid, and elements are those of values that can be read back, in
    any snapshot. -/
def Legible (m : MibStore) : Prop :=
  ∀ p ∈ m.table.entries, p.1.validate = .ok () ∧
    ∀ s, ∃ w : Value, w.Legible ∧ w.tlv = .ok (p.2.octetsAt s) ∧ ¬w.type.isMarker

/-- An entry has, as of any snapshot, the element of the value of its cell. -/
theorem tlv_value_of_entry {tag : Tag} {s : Snapshot} {oid : Oid} {cell : Cell} {e : Entry}
    (h : entry tag s oid cell = .ok e) (s' : Snapshot) :
    (cell.value s').tlv = .ok (e.octetsAt s') ∧ ¬(cell.value s').type.isMarker := by
  obtain ⟨-, hstorable, htag, htlv, -, hmetric⟩ := entry_eq_ok.1 h
  constructor
  · rw [Entry.octetsAt, hmetric]
    cases cell with
    | fixed v => exact htlv
    | metric m => exact m.tlv_sample s'
  · rw [isStorable, ← htag, Value.tag, ValueType.ofTag?_tag] at hstorable
    rw [cell.type_value s' s]
    simpa using hstorable

theorem legible_of_build {definitions : List Definition} {s : Snapshot} {capacity : Nat}
    {m : MibStore} (hbuild : build definitions s capacity = .ok m)
    (h : ∀ d ∈ definitions, d.Legible) : m.Legible := by
  have hinstances : ∀ i ∈ instances definitions, i.2.1.validate = .ok () ∧ i.2.2.Legible := by
    intro i hi
    obtain ⟨d, hd, hi⟩ := List.mem_flatMap.1 hi
    obtain ⟨p, hp, rfl⟩ := List.mem_map.1 hi
    exact (h d hd).instances hp
  obtain ⟨hentries, -⟩ := build_eq_ok hbuild
  rw [Legible]
  generalize instances definitions = is at hinstances hentries
  generalize m.table.entries = entries at hentries ⊢
  induction hentries with
  | nil => exact List.forall_mem_nil _
  | @cons i p is ps hentry _ ih =>
    obtain ⟨hi, his⟩ := List.forall_mem_cons.1 hinstances
    refine List.forall_mem_cons.2 ⟨⟨hentry.1 ▸ hi.1, fun s' => ?_⟩, ih his⟩
    obtain ⟨htlv, htype⟩ := tlv_value_of_entry hentry.2 s'
    exact ⟨_, hi.2 s', htlv, htype⟩

theorem Legible.blank {m : MibStore} (h : m.Legible) : m.blank.Legible := by
  intro q hq
  obtain ⟨p, hp, rfl⟩ := List.mem_map.1 hq
  simp only [Entry.octetsAt_blank]
  exact h p hp

/-- What stands at a position of a legible store denotes a varbind that says no
    exception. -/
theorem Legible.denotes_bindingAt {m : MibStore} (h : m.Legible) {s : Snapshot} {i : Nat}
    {b : Binding} (hb : m.bindingAt s i = some b) :
    ∃ v, b.Denotes v ∧ ¬v.value.isException := by
  obtain ⟨⟨oid, e⟩, hentry, rfl⟩ := Option.map_eq_some_iff.1 hb
  obtain ⟨hvalid, hvalue⟩ := h _ (List.mem_of_getElem? hentry)
  obtain ⟨w, hw, htlv, htype⟩ := hvalue s
  refine ⟨⟨oid.repacked, w.repacked⟩, ⟨hvalid, rfl, w, hw, htlv, rfl⟩, fun hexception => htype ?_⟩
  rw [← w.type_repacked]
  exact Value.isMarker_of_isException hexception

theorem Legible.denotes_lookup? {m : MibStore} (h : m.Legible) {s : Snapshot} {oid : Oid}
    {b : Binding} (hb : m.lookup? s oid = some b) : ∃ v, b.Denotes v ∧ ¬v.value.isException := by
  rw [lookup?] at hb
  split at hb
  · cases hb
  · split_ifs at hb <;> exact h.denotes_bindingAt hb

theorem Legible.denotes_next? {m : MibStore} (h : m.Legible) {s : Snapshot} {oid : Oid}
    {b : Binding} (hb : m.next? s oid = some b) : ∃ v, b.Denotes v ∧ ¬v.value.isException := by
  obtain ⟨i, -, hb⟩ := Option.bind_eq_some_iff.1 hb
  exact h.denotes_bindingAt hb

end MibStore

end SnmpAgent
