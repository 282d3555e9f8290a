import SnmpAgent.Proofs.Config.Limits
import SnmpAgent.Proofs.Mib.Columns
import SnmpAgent.Proofs.Mib.Names
import SnmpAgent.Proofs.Message.Sizes

/-!
# The standard store

The standard definitions have a store for every configuration and every host:
their columns are the same for all and stand one behind the other, and their
values have the declared types in every snapshot. Only texts could be too long
to be written, and only tables can have too many rows, which a valid
configuration rules out.

* `AgentConfig.TextsFit`: the texts are not too long;
* `wellTyped_standardDefinitions`, `apart_standardDefinitions`: the standard
  definitions can be entered, one after the other;
* `length_instances_standardDefinitions`: their number;
* `MibStore.build_standardDefinitions`: the standard store.
-/

namespace SnmpAgent

/-- The texts that the standard variables show are not too long to be written. -/
structure AgentConfig.TextsFit (c : AgentConfig) (s : Snapshot) : Prop where
  /-- The texts of the system group that the configuration gives. -/
  system : ∀ text ∈ [c.description, c.contact, c.location], text.utf8ByteSize ≤ Length.max
  hostname : s.hostname.utf8ByteSize ≤ Length.max
  interfaces : ∀ name ∈ c.interfaces, name.utf8ByteSize ≤ Length.max
  disks : ∀ path ∈ c.disks, path.utf8ByteSize ≤ Length.max

/-! ## Values -/

/-- The value of a metric is no marker. -/
theorem Metric.not_isMarker_type (m : Metric) : ¬m.type.isMarker := by
  cases m with
  | interface row field => cases field <;> exact nofun
  | load slot field => cases field <;> exact nofun
  | tcp field => cases field <;> exact nofun
  | agentUptime | systemUptime | memory _ | disk _ _ | ip _ | udp _ | cpu _ => exact nofun

namespace Cell

theorem suits_metric (m : Metric) : (Cell.metric m).Suits m.type := fun s =>
  ⟨m.type_sample s, Nat.le_trans (m.length_content_sample s) (by decide : 20 ≤ Length.max)⟩

theorem suits_fixed {v : Value} (h : v.content.length ≤ Length.max) : (Cell.fixed v).Suits v.type :=
  fun _ => ⟨rfl, h⟩

/-- A text that is not too long. -/
theorem suits_ofString {text : String} (h : text.utf8ByteSize ≤ Length.max) :
    (Cell.fixed (.ofString text)).Suits .octetString :=
  suits_fixed ((length_toUTF8 text).trans_le h)

/-- A number of any size. -/
theorem suits_integer (v : Int32) : (Cell.fixed (.integer v)).Suits .integer :=
  suits_fixed (Nat.le_trans (Value.length_content_le nofun nofun) (by decide : 9 ≤ Length.max))

theorem suits_gauge32 (v : UInt32) : (Cell.fixed (.gauge32 v)).Suits .gauge32 :=
  suits_fixed (Nat.le_trans (Value.length_content_le nofun nofun) (by decide : 9 ≤ Length.max))

/-- A physical address has six octets. -/
theorem suits_physAddress (i : Interface) :
    (Cell.fixed (.octetString i.physAddress.toList)).Suits .octetString :=
  suits_fixed (Nat.le_trans i.physAddress.length_toList.le (by decide))

end Cell

/-! ## Definitions -/

namespace Standard

variable {root : Oid} {column : UInt32}

/-- A scalar that is sampled, if it is declared with the type of its metric. -/
theorem wellTyped_sampled (h : root.IsNode) {type : ValueType} {m : Metric} (hm : m.type = type) :
    (sampled root column type m).WellTyped := by
  subst hm
  exact ⟨h, m.type, m.not_isMarker_type, rfl,
    fun _ hcell => List.mem_singleton.1 hcell ▸ Cell.suits_metric m⟩

/-- A scalar that never changes, if it is declared with the type of its value. -/
theorem wellTyped_constant (h : root.IsNode) {type : ValueType} {v : Value} (hv : v.type = type)
    (htype : ¬type.isMarker) (hlength : v.content.length ≤ Length.max) :
    (constant root column type v).WellTyped := by
  subst hv
  exact ⟨h, v.type, htype, rfl, fun _ hcell => List.mem_singleton.1 hcell ▸ Cell.suits_fixed hlength⟩

/-- A table column of cells of one type. -/
theorem wellTyped_table {α : Type} (h : root.IsNode) {type : ValueType} (htype : ¬type.isMarker)
    {rows : List α} {cell : α → Cell} (hcell : ∀ a ∈ rows, (cell a).Suits type) :
    (Definition.table root column type (rows.map cell)).WellTyped := by
  refine ⟨h, type, htype, rfl, fun x hx => ?_⟩
  obtain ⟨a, ha, rfl⟩ := List.mem_map.1 hx
  exact hcell a ha

theorem wellTyped_sampledRows (h : root.IsNode) {type : ValueType} (rows : Nat) {m : Nat → Metric}
    (hm : ∀ row, (m row).type = type) : (sampledRows root column type rows m).WellTyped := by
  have htype : ¬type.isMarker := hm 0 ▸ (m 0).not_isMarker_type
  exact wellTyped_table h htype fun row _ => hm row ▸ Cell.suits_metric (m row)

theorem wellTyped_rowNumbers (h : root.IsNode) (rows : Nat) :
    (rowNumbers root column rows).WellTyped :=
  wellTyped_table h (by decide) fun _ _ => Cell.suits_integer _

theorem wellTyped_texts (h : root.IsNode) {rows : List String}
    (hrows : ∀ text ∈ rows, text.utf8ByteSize ≤ Length.max) : (texts root column rows).WellTyped :=
  wellTyped_table h (by decide) fun text htext => Cell.suits_ofString (hrows text htext)

variable {c : AgentConfig} {s : Snapshot}

theorem wellTyped_systemGroup (hvendor : c.vendor.validate = .ok ()) (h : c.TextsFit s) :
    ∀ d ∈ systemGroup c s, d.WellTyped := by
  have hroot : system.IsNode := by decide
  have htext : ∀ {column text}, text.utf8ByteSize ≤ Length.max →
      (constant system column .octetString (.ofString text)).WellTyped := fun htext =>
    wellTyped_constant hroot rfl nofun ((length_toUTF8 _).trans_le htext)
  have hlength : c.vendor.content.length ≤ Length.max := by
    rw [Oid.length_content]
    exact Nat.le_trans (Oid.contentLength_le_of_validate hvendor) (by decide)
  have hvendor : (constant system 2 .objectIdentifier (.objectIdentifier c.vendor)).WellTyped :=
    wellTyped_constant hroot rfl nofun hlength
  have huptime : (sampled system 3 .timeTicks .agentUptime).WellTyped := wellTyped_sampled hroot rfl
  obtain ⟨hdescription, hcontact, hlocation, -⟩ := by
    simpa only [List.forall_mem_cons] using h.system
  simp only [systemGroup, List.forall_mem_cons, huptime, htext, hvendor, hdescription, hcontact,
    hlocation, h.hostname, true_and]
  exact List.forall_mem_nil _

theorem wellTyped_interfacesGroup (h : c.TextsFit s) : ∀ d ∈ interfacesGroup c s, d.WellTyped := by
  have hroot : interfaces.IsNode := by decide
  have hentry : ifEntry.IsNode := by decide
  have hcount : (constant interfaces 1 .integer
      (.integer (Int32.ofNat c.interfaces.length))).WellTyped :=
    wellTyped_constant hroot rfl nofun (Cell.suits_integer _ {}).2
  have hcolumn : ∀ {column type} {figure : Interface → Value}, ¬type.isMarker →
      (∀ i, (Cell.fixed (figure i)).Suits type) → (ifColumn c s column type figure).WellTyped :=
    fun htype hfigure => wellTyped_table hentry htype fun _ _ => hfigure _
  have hmetric : ∀ {column type field}, (∀ row, (Metric.interface row field).type = type) →
      (ifMetric c column type field).WellTyped := fun hm => wellTyped_sampledRows hentry _ hm
  simp only [interfacesGroup, List.forall_mem_cons, hcount, wellTyped_rowNumbers hentry,
    wellTyped_texts hentry h.interfaces, true_and]
  refine ⟨?_, ?_, ?_, ?_, ?_⟩
  · exact hcolumn (by decide) fun i => Cell.suits_integer i.ifType
  · exact hcolumn (by decide) fun i => Cell.suits_integer i.mtu
  · exact hcolumn (by decide) fun i => Cell.suits_gauge32 i.speed
  · exact hcolumn (by decide) Cell.suits_physAddress
  · refine ⟨hmetric fun _ => rfl, hmetric fun _ => rfl, hmetric fun _ => rfl, hmetric fun _ => rfl,
      hmetric fun _ => rfl, hmetric fun _ => rfl, hmetric fun _ => rfl, hmetric fun _ => rfl,
      hmetric fun _ => rfl, hmetric fun _ => rfl, List.forall_mem_nil _⟩

theorem wellTyped_diskGroup (h : ∀ path ∈ c.disks, path.utf8ByteSize ≤ Length.max) :
    ∀ d ∈ diskGroup c, d.WellTyped := by
  have hentry : dskEntry.IsNode := by decide
  have hmetric : ∀ column field, (dskMetric c column .integer field).WellTyped :=
    fun column field => wellTyped_sampledRows hentry _ fun _ => rfl
  simp [diskGroup, wellTyped_rowNumbers hentry, wellTyped_texts hentry h, hmetric]

theorem wellTyped_loadGroup : ∀ d ∈ loadGroup, d.WellTyped := by
  have hentry : laEntry.IsNode := by decide
  have htexts : (texts laEntry 2 ["Load-1", "Load-5", "Load-15"]).WellTyped :=
    wellTyped_texts hentry (by decide)
  have htext : (sampledRows laEntry 3 .octetString 3 (.load · .text)).WellTyped :=
    wellTyped_sampledRows hentry 3 fun _ => rfl
  have hinteger : (sampledRows laEntry 5 .integer 3 (.load · .integer)).WellTyped :=
    wellTyped_sampledRows hentry 3 fun _ => rfl
  simp [loadGroup, wellTyped_rowNumbers hentry, htexts, htext, hinteger]

/-- The other groups consist of scalars that are sampled. -/
theorem wellTyped_scalars : ∀ d ∈ ipGroup ++ tcpGroup ++ udpGroup ++ hostGroup ++ memoryGroup ++
    cpuGroup, d.WellTyped := by
  have hip : ip.IsNode := by decide
  have htcp : tcp.IsNode := by decide
  have hudp : udp.IsNode := by decide
  have hhost : hrSystem.IsNode := by decide
  have hmemory : memory.IsNode := by decide
  have hcpu : systemStats.IsNode := by decide
  simp only [ipGroup, tcpGroup, udpGroup, hostGroup, memoryGroup, cpuGroup,
    List.forall_mem_append, List.forall_mem_cons]
  and_intros
  all_goals first | exact wellTyped_sampled (by assumption) rfl | exact List.forall_mem_nil _

end Standard

variable {c : AgentConfig} {s₁ s₂ : Snapshot}

/-- The standard definitions can be entered, if the name of the vendor is valid
    and the texts are not too long. -/
theorem wellTyped_standardDefinitions (hvendor : c.vendor.validate = .ok ()) (h : c.TextsFit s₁) :
    ∀ d ∈ standardDefinitions c s₁, d.WellTyped := by
  have hscalars := Standard.wellTyped_scalars
  simp only [List.forall_mem_append] at hscalars
  obtain ⟨⟨⟨⟨⟨hip, htcp⟩, hudp⟩, hhost⟩, hmemory⟩, hcpu⟩ := hscalars
  simp only [standardDefinitions, List.forall_mem_append]
  exact ⟨⟨⟨⟨⟨⟨⟨⟨⟨Standard.wellTyped_systemGroup hvendor h, Standard.wellTyped_interfacesGroup h⟩,
    hip⟩, htcp⟩, hudp⟩, hhost⟩, hmemory⟩, Standard.wellTyped_diskGroup h.disks⟩,
    Standard.wellTyped_loadGroup⟩, hcpu⟩

/-- The standard columns do not depend on the configuration. -/
theorem map_node_standardDefinitions (c : AgentConfig) (s : Snapshot) :
    (standardDefinitions c s).map (·.node) = (standardDefinitions {} {}).map (·.node) := rfl

/-- The standard columns stand one behind the other. -/
theorem apart_standardDefinitions (c : AgentConfig) (s : Snapshot) :
    (standardDefinitions c s).Pairwise fun d e => d.node.Apart e.node := by
  -- Since `Apart` is transitive, it is enough to compare each column with the next one.
  have hchain : ((standardDefinitions {} {}).map (·.node)).IsChain Oid.Apart := by decide +kernel
  rw [← map_node_standardDefinitions c s] at hchain
  exact List.pairwise_map.1 hchain.pairwise

namespace MibStore

open Standard in
/-- There are 52 standard variables, 16 for each interface, and 7 for each
    disk. -/
theorem length_instances_standardDefinitions (c : AgentConfig) (s : Snapshot) :
    (instances (standardDefinitions c s)).length =
      52 + 16 * c.interfaces.length + 7 * c.disks.length := by
  have hsystem : cellCount (systemGroup c s) = 6 := rfl
  have hinterfaces : cellCount (interfacesGroup c s) = 1 + 16 * c.interfaces.length := by
    simp [cellCount, interfacesGroup, constant, rowNumbers, texts, ifColumn, ifMetric, sampledRows,
      Definition.scalar, Definition.table, Rows.cells]
    omega
  have hscalars : cellCount (ipGroup ++ tcpGroup ++ udpGroup ++ hostGroup ++ memoryGroup) = 27 :=
    rfl
  have hdisks : cellCount (diskGroup c) = 7 * c.disks.length := by
    simp [cellCount, diskGroup, rowNumbers, texts, dskMetric, sampledRows, Definition.table,
      Rows.cells]
    omega
  have hload : cellCount loadGroup = 12 := rfl
  have hcpu : cellCount cpuGroup = 6 := rfl
  rw [length_instances, standardDefinitions]
  simp only [cellCount_append] at *
  omega

/-- The configured tables of a valid configuration have few rows. -/
theorem standard_le_maxValues (h : c.validate = .ok ()) :
    52 + 16 * c.interfaces.length + 7 * c.disks.length ≤ maxValues := by
  have hinterfaces := (AgentConfig.validate_eq_ok_iff.1 h).interfaces
  have hdisks := (AgentConfig.validate_eq_ok_iff.1 h).disks
  rw [maxInterfaces] at hinterfaces
  rw [maxDisks] at hdisks
  rw [maxValues]
  omega

/-- The standard definitions of a valid configuration have a store, whatever the
    figures of the host then and now. However many interfaces and disks are
    configured, there is a store if there is room for all variables, and else
    nothing but the lack of room is reported. A store has 52 variables, 16 for
    each interface and 7 for each disk; their names ascend and are read back as
    they are written. -/
theorem build_standardDefinitions (hvendor : c.vendor.validate = .ok ()) (htexts : c.TextsFit s₁)
    (s₂ : Snapshot) :
    (c.validate = .ok () → ∃ m, build (standardDefinitions c s₁) s₂ maxValues = .ok m) ∧
    ∀ capacity < 2 ^ 32,
      (52 + 16 * c.interfaces.length + 7 * c.disks.length ≤ capacity →
        ∃ m, build (standardDefinitions c s₁) s₂ capacity = .ok m ∧
          m.length = 52 + 16 * c.interfaces.length + 7 * c.disks.length ∧ m.table.Ascending ∧
          ∀ i oid e, m.get? i = some (oid, e) → ∀ base, Oid.ofContent oid.content base = .ok oid) ∧
      (capacity < 52 + 16 * c.interfaces.length + 7 * c.disks.length →
        ∃ i, (instances (standardDefinitions c s₁))[capacity]? = some i ∧
          build (standardDefinitions c s₁) s₂ capacity =
            .error (.mib (.tableOverflow capacity) i.2.1)) := by
  have hroom := fun capacity (hcapacity : capacity < 2 ^ 32) =>
    build_of_apart hcapacity (apart_standardDefinitions c s₁)
      (wellTyped_standardDefinitions hvendor htexts) s₂
  simp only [length_instances_standardDefinitions] at hroom
  refine ⟨fun h => (hroom maxValues (by decide)).1 (standard_le_maxValues h),
    fun capacity hcapacity => ⟨fun hsize => ?_, (hroom capacity hcapacity).2⟩⟩
  obtain ⟨m, hm⟩ := (hroom capacity hcapacity).1 hsize
  refine ⟨m, hm, ?_, ascending_of_build hm, fun i oid e hentry base => ?_⟩
  · rw [← length_instances_standardDefinitions c s₁]
    exact (build_eq_ok hm).1.length_eq.symm
  · have hcanonical := canonical_of_build hm hentry
    rw [Oid.ofContent_content hcanonical.validate, hcanonical.repacked_eq]

/-- The default configuration has a store, which one with 125 interfaces has
    not, for want of room: the last eleven of its 2059 variables are too many. -/
theorem build_standardDefinitions_replicate :
    (∃ m, build (standardDefinitions {} {}) {} maxValues = .ok m ∧ m.length = 59) ∧
    ∃ oid, build (standardDefinitions { interfaces := List.replicate 125 "eth" } {}) {} maxValues =
      .error (.mib (.tableOverflow maxValues) oid) := by
  have hdefault : ({} : AgentConfig).TextsFit {} :=
    ⟨by decide, by decide, by decide, by decide⟩
  have hmany : ({ interfaces := List.replicate 125 "eth" } : AgentConfig).TextsFit {} := by
    refine ⟨by decide, by decide, fun name hname => ?_, by decide⟩
    rw [List.eq_of_mem_replicate hname]
    decide
  constructor
  · obtain ⟨hbuild, hall⟩ := build_standardDefinitions rfl hdefault {}
    obtain ⟨m, hm⟩ := hbuild rfl
    obtain ⟨m', hm', hlength, -⟩ := (hall maxValues (by decide)).1 (by decide)
    cases hm.symm.trans hm'
    exact ⟨m, hm, hlength⟩
  · obtain ⟨-, hall⟩ := build_standardDefinitions rfl hmany {}
    obtain ⟨i, -, hi⟩ := (hall maxValues (by decide)).2 (by rw [List.length_replicate]; decide)
    exact ⟨i.2.1, hi⟩

end MibStore

end SnmpAgent
