import SnmpAgent.Proofs.Mib.Instants

/-!
# Rows

A row of ifTable or dskTable belongs to an interface or a disk by its position
only: the names come from the configuration, and the figures from a snapshot
whose rows a host has *aligned* with these names. Here it is shown that the
two belong together, in every column and after any number of refreshes.

* `Snapshot.align_align`: aligning again changes nothing;
* `Interface.figures`, `Disk.figures`: the figures and their columns;
* `MibStore.ShowsInterface`, `MibStore.ShowsDisk`: what a row shows;
* `MibStore.shows_rows`: every row shows the figures of what it is named after.
-/

namespace SnmpAgent

/-! ## Alignment -/

/-- What is looked up by a name has that name, if what stands in for it has. -/
theorem name_find?_getD {α : Type} (name : α → String) {n : String} {a : α} (h : name a = n)
    (as : List α) : name ((as.find? (name · = n)).getD a) = n := by
  cases hfind : as.find? (name · = n) with
  | none => exact h
  | some b => simpa using List.find?_some hfind

/-- Among things that were looked up by their names, each is found by its name. -/
theorem find?_map_named {α : Type} {named : String → α} {name : α → String}
    (h : ∀ n, name (named n) = n) {names : List String} {n : String} (hn : n ∈ names) :
    (names.map named).find? (fun a => name a = n) = some (named n) := by
  rw [List.find?_map]
  cases hfind : names.find? ((fun a => decide (name a = n)) ∘ named) with
  | none => simpa [h] using List.find?_eq_none.1 hfind n hn
  | some n' =>
    have heq : n' = n := by simpa [h] using List.find?_some hfind
    rw [heq, Option.map_some]

namespace Snapshot

variable {interfaces interfaces' disks disks' : List String}

theorem name_interfaceNamed (s : Snapshot) (name : String) : (s.interfaceNamed name).name = name :=
  name_find?_getD Interface.name (a := { name }) rfl s.interfaces

theorem path_diskAt (s : Snapshot) (path : String) : (s.diskAt path).path = path :=
  name_find?_getD Disk.path (a := { path }) rfl s.disks

theorem interfaceNamed_align (s : Snapshot) (disks : List String) {name : String}
    (h : name ∈ interfaces) :
    (s.align interfaces disks).interfaceNamed name = s.interfaceNamed name := by
  rw [interfaceNamed, align, find?_map_named s.name_interfaceNamed h, Option.getD_some]

theorem diskAt_align (s : Snapshot) (interfaces : List String) {path : String} (h : path ∈ disks) :
    (s.align interfaces disks).diskAt path = s.diskAt path := by
  rw [diskAt, align, find?_map_named s.path_diskAt h, Option.getD_some]

/-- Aligning again, with names that were there already, is the same as aligning
    at once. -/
theorem align_align (s : Snapshot) (hinterfaces : interfaces' ⊆ interfaces)
    (hdisks : disks' ⊆ disks) :
    (s.align interfaces disks).align interfaces' disks' = s.align interfaces' disks' := by
  have hrows : interfaces'.map (s.align interfaces disks).interfaceNamed =
      interfaces'.map s.interfaceNamed :=
    List.map_congr_left fun _ h => s.interfaceNamed_align disks (hinterfaces h)
  have hpaths : disks'.map (s.align interfaces disks).diskAt = disks'.map s.diskAt :=
    List.map_congr_left fun _ h => s.diskAt_align interfaces (hdisks h)
  rw [align, hrows, hpaths]
  rfl

end Snapshot

/-! ## Columns -/

/-- The figures of an interface that change, with their columns in ifTable. -/
def Interface.figures (i : Interface) : List (UInt32 × Value) := [
  (7, .integer i.adminStatus),
  (8, .integer i.operStatus),
  (10, .counter32 i.rxBytes),
  (11, .counter32 i.rxPackets),
  (13, .counter32 i.rxDrops),
  (14, .counter32 i.rxErrors),
  (16, .counter32 i.txBytes),
  (17, .counter32 i.txPackets),
  (19, .counter32 i.txDrops),
  (20, .counter32 i.txErrors)]

/-- The figures of a disk, with their columns in dskTable. -/
def Disk.figures (d : Disk) : List (UInt32 × Value) := [
  (6, .integer (clampInt32 d.total)),
  (7, .integer (clampInt32 d.avail)),
  (8, .integer (clampInt32 d.used)),
  (9, .integer d.percent),
  (10, .integer d.inodePercent)]

namespace Definition

variable {root : Oid} {column : UInt32} {type : ValueType}

theorem getElem?_rowsFrom (row : Nat) (cells : List Cell) (k : Nat) :
    (rowsFrom root column row cells)[k]? =
      cells[k]?.map fun cell => (root.join [column, UInt32.ofNat (row + k)], cell) := by
  induction cells generalizing row k with
  | nil => rfl
  | cons cell cells ih =>
    cases k with
    | zero => rfl
    | succ k =>
      rw [rowsFrom, List.getElem?_cons_succ, List.getElem?_cons_succ, ih, Nat.add_right_comm]
      rfl

/-- The rows of a table column count from one. -/
theorem mem_instances_table {cells : List Cell} {row : Nat} {cell : Cell}
    (h : cells[row]? = some cell) : (root.join [column, UInt32.ofNat (row + 1)], cell) ∈
      (Definition.table root column type cells).instances := by
  refine List.mem_of_getElem? (i := row) ?_
  change (rowsFrom root column 1 cells)[row]? = _
  rw [getElem?_rowsFrom, h, Nat.add_comm]
  rfl

end Definition

namespace Standard

variable {c : AgentConfig} {s : Snapshot}

theorem mem_of_mem_interfacesGroup {d : Definition} (h : d ∈ interfacesGroup c s) :
    d ∈ standardDefinitions c s := by
  simp [standardDefinitions, h]

theorem mem_of_mem_diskGroup {d : Definition} (h : d ∈ diskGroup c) :
    d ∈ standardDefinitions c s := by
  simp [standardDefinitions, h]

/-- Each figure of an interface has its column in ifTable. -/
theorem exists_ifMetric (c : AgentConfig) (s : Snapshot) (i : Interface) : ∀ p ∈ i.figures,
    ∃ type field, ifMetric c p.1 type field ∈ interfacesGroup c s ∧ field.sample i = p.2 := by
  simp only [Interface.figures, List.forall_mem_cons]
  refine ⟨⟨.integer, .adminStatus, ?_, rfl⟩, ⟨.integer, .operStatus, ?_, rfl⟩,
    ⟨.counter32, .inOctets, ?_, rfl⟩, ⟨.counter32, .inUcastPkts, ?_, rfl⟩,
    ⟨.counter32, .inDiscards, ?_, rfl⟩, ⟨.counter32, .inErrors, ?_, rfl⟩,
    ⟨.counter32, .outOctets, ?_, rfl⟩, ⟨.counter32, .outUcastPkts, ?_, rfl⟩,
    ⟨.counter32, .outDiscards, ?_, rfl⟩, ⟨.counter32, .outErrors, ?_, rfl⟩, List.forall_mem_nil _⟩
  all_goals simp [interfacesGroup]

/-- Each figure of a disk has its column in dskTable. -/
theorem exists_dskMetric (c : AgentConfig) (d : Disk) : ∀ p ∈ d.figures,
    ∃ type field, dskMetric c p.1 type field ∈ diskGroup c ∧ field.sample d = p.2 := by
  simp only [Disk.figures, List.forall_mem_cons]
  refine ⟨⟨.integer, .total, ?_, rfl⟩, ⟨.integer, .avail, ?_, rfl⟩, ⟨.integer, .used, ?_, rfl⟩,
    ⟨.integer, .percent, ?_, rfl⟩, ⟨.integer, .percentNode, ?_, rfl⟩, List.forall_mem_nil _⟩
  all_goals simp [diskGroup]

end Standard

/-! ## Rows -/

namespace MibStore

/-- A row of ifTable, counted from one, has a name and shows the figures of an
    interface. -/
structure ShowsInterface (m : MibStore) (row : Nat) (name : String) (i : Interface) : Prop where
  name : m.Shows (Standard.ifEntry.join [2, UInt32.ofNat row]) (.ofString name)
  figures : ∀ p ∈ i.figures, m.Shows (Standard.ifEntry.join [p.1, UInt32.ofNat row]) p.2

/-- A row of dskTable, counted from one, has a path and shows the figures of a
    disk. -/
structure ShowsDisk (m : MibStore) (row : Nat) (path : String) (d : Disk) : Prop where
  path : m.Shows (Standard.dskEntry.join [2, UInt32.ofNat row]) (.ofString path)
  figures : ∀ p ∈ d.figures, m.Shows (Standard.dskEntry.join [p.1, UInt32.ofNat row]) p.2

section

variable {definitions : List Definition} {s : Snapshot} {capacity : Nat} {m : MibStore} {root : Oid}
  {column : UInt32} {row : Nat}

/-- A column of texts shows the text of each row. -/
theorem shows_text_of_build (h : build definitions s capacity = .ok m) {rows : List String}
    (hcolumn : Standard.texts root column rows ∈ definitions) {text : String}
    (hrow : rows[row]? = some text) (s' : Snapshot) :
    (m.asOf s').Shows (root.join [column, UInt32.ofNat (row + 1)]) (.ofString text) := by
  have hcell : (rows.map fun text => Cell.fixed (.ofString text))[row]? =
      some (.fixed (.ofString text)) := by
    rw [List.getElem?_map, hrow]
    rfl
  exact shows_of_build h hcolumn (Definition.mem_instances_table hcell) trivial

/-- A column that is sampled shows the sample of each row. -/
theorem shows_sample_of_build (h : build definitions s capacity = .ok m) {type : ValueType}
    {rows : Nat} {metric : Nat → Metric}
    (hcolumn : Standard.sampledRows root column type rows metric ∈ definitions) (hrow : row < rows)
    (s' : Snapshot) : (m.asOf s').Shows (root.join [column, UInt32.ofNat (row + 1)])
      ((metric row).sample s') := by
  have hcell : ((List.range rows).map fun row => Cell.metric (metric row))[row]? =
      some (.metric (metric row)) := by
    rw [List.getElem?_map, List.getElem?_range hrow]
    rfl
  exact shows_of_build h hcolumn (Definition.mem_instances_table hcell)
    ((metric row).canonical_sample s')

end

section

variable {c : AgentConfig} {s₁ s₂ : Snapshot} {capacity : Nat} {m : MibStore} {row : Nat}

/-- As of an aligned snapshot, a row shows the interface that it is named
    after. -/
theorem showsInterface_of_build (h : build (standardDefinitions c s₁) s₂ capacity = .ok m)
    {name : String} (hname : c.interfaces[row]? = some name) (s : Snapshot) :
    (m.asOf (s.align c.interfaces c.disks)).ShowsInterface (row + 1) name
      (s.interfaceNamed name) where
  name := by
    have htexts : Standard.texts Standard.ifEntry 2 c.interfaces ∈ standardDefinitions c s₁ :=
      Standard.mem_of_mem_interfacesGroup (by simp [Standard.interfacesGroup])
    exact shows_text_of_build h htexts hname _
  figures := by
    intro p hp
    obtain ⟨type, field, hcolumn, hsample⟩ := Standard.exists_ifMetric c s₁ _ p hp
    have haligned : (Metric.interface row field).sample (s.align c.interfaces c.disks) = p.2 := by
      rw [← hsample, Metric.sample, Snapshot.align, List.getElem?_map, hname]
      rfl
    rw [← haligned]
    exact shows_sample_of_build h (Standard.mem_of_mem_interfacesGroup hcolumn)
      (List.getElem?_eq_some_iff.1 hname).1 _

/-- As of an aligned snapshot, a row shows the disk at its path. -/
theorem showsDisk_of_build (h : build (standardDefinitions c s₁) s₂ capacity = .ok m)
    {path : String} (hpath : c.disks[row]? = some path) (s : Snapshot) :
    (m.asOf (s.align c.interfaces c.disks)).ShowsDisk (row + 1) path (s.diskAt path) where
  path := by
    have htexts : Standard.texts Standard.dskEntry 2 c.disks ∈ standardDefinitions c s₁ :=
      Standard.mem_of_mem_diskGroup (by simp [Standard.diskGroup])
    exact shows_text_of_build h htexts hpath _
  figures := by
    intro p hp
    obtain ⟨type, field, hcolumn, hsample⟩ := Standard.exists_dskMetric c _ p hp
    have haligned : (Metric.disk row field).sample (s.align c.interfaces c.disks) = p.2 := by
      rw [← hsample, Metric.sample, Snapshot.align, List.getElem?_map, hpath]
      rfl
    rw [← haligned]
    exact shows_sample_of_build h (Standard.mem_of_mem_diskGroup hcolumn)
      (List.getElem?_eq_some_iff.1 hpath).1 _

/-- Every row of a store that was built from a static host shows the figures of
    the interface or the disk that it is named after, and after refreshes from
    later static hosts those of the last one. A static host over aligned figures
    reports them as they are, under all names that are in them. -/
theorem shows_rows {figures : Snapshot}
    (hbuild : build (standardDefinitions c (Host.static figures 0 c.interfaces c.disks))
      (Host.static figures 0 c.interfaces c.disks) capacity = .ok m) (later : List Snapshot) :
    (∀ (row : Nat) (name : String), c.interfaces[row]? = some name →
      (m.refreshedFrom (later.map fun s => Host.static s 0 c.interfaces c.disks)).ShowsInterface
        (row + 1) name ((later.getLastD figures).interfaceNamed name)) ∧
    (∀ (row : Nat) (path : String), c.disks[row]? = some path →
      (m.refreshedFrom (later.map fun s => Host.static s 0 c.interfaces c.disks)).ShowsDisk
        (row + 1) path ((later.getLastD figures).diskAt path)) ∧
    ∀ (s : Snapshot) (turn turn' : Nat) (interfaces disks interfaces' disks' : List String),
      interfaces' ⊆ interfaces → disks' ⊆ disks →
        Host.static (Host.static s turn interfaces disks) turn' interfaces' disks' =
          Host.static s turn' interfaces' disks' := by
  have hlast : (later.map fun s => Host.static s 0 c.interfaces c.disks).getLastD
      (Host.static figures 0 c.interfaces c.disks) =
        (later.getLastD figures).align c.interfaces c.disks := by
    rw [List.getLastD_eq_getLast?, List.getLast?_map, Option.getD_map, List.getLastD_eq_getLast?]
    rfl
  -- Only the last refresh can be seen.
  rw [refreshedFrom_eq (asOf_of_build hbuild), hlast]
  exact ⟨fun row name hname => showsInterface_of_build hbuild hname _,
    fun row path hpath => showsDisk_of_build hbuild hpath _,
    fun s _ _ _ _ _ _ hinterfaces hdisks => s.align_align hinterfaces hdisks⟩

end

/-- A configuration in which names occur twice, and one of which the host has no
    interface. -/
def repeatedNames : AgentConfig :=
  { interfaces := ["lo", "eth0", "tun9", "eth0"], disks := ["/", "/srv", "/"] }

/-- The figures of a host that has another interface of the same name, and a
    large disk. -/
def repeatedFigures (octets : UInt32) : Snapshot :=
  { interfaces := [{ name := "eth0", rxBytes := octets }, { name := "lo", rxBytes := 1 },
      { name := "eth0", rxBytes := 2 }]
    disks := [{ path := "/", total := 4294967295 }] }

/-- Both rows of an interface show its last figures, an unknown one shows zero,
    and the size of a large disk is clamped. -/
theorem shows_repeatedNames : ∃ m : MibStore,
    build (standardDefinitions repeatedNames
        (Host.static (repeatedFigures 5) 0 repeatedNames.interfaces repeatedNames.disks))
      (Host.static (repeatedFigures 5) 0 repeatedNames.interfaces repeatedNames.disks) maxValues =
        .ok m ∧
    let store := m.refreshedFrom ([repeatedFigures 6, repeatedFigures 7].map fun s =>
      Host.static s 0 repeatedNames.interfaces repeatedNames.disks)
    store.Shows ⟨[1, 3, 6, 1, 2, 1, 2, 2, 1, 10, 2]⟩ (.counter32 7) ∧
    store.Shows ⟨[1, 3, 6, 1, 2, 1, 2, 2, 1, 10, 4]⟩ (.counter32 7) ∧
    store.Shows ⟨[1, 3, 6, 1, 2, 1, 2, 2, 1, 10, 3]⟩ (.counter32 0) ∧
    store.Shows ⟨[1, 3, 6, 1, 4, 1, 2021, 9, 1, 6, 3]⟩ (.integer 2147483647) := by
  obtain ⟨m, hm⟩ := exists_eq_ok_of_isOk (x := build (standardDefinitions repeatedNames
    (Host.static (repeatedFigures 5) 0 repeatedNames.interfaces repeatedNames.disks))
    (Host.static (repeatedFigures 5) 0 repeatedNames.interfaces repeatedNames.disks) maxValues)
    (by decide +kernel)
  obtain ⟨hinterfaces, hdisks, -⟩ := shows_rows hm [repeatedFigures 6, repeatedFigures 7]
  exact ⟨m, hm, (hinterfaces 1 "eth0" rfl).figures (10, .counter32 7) (by decide +kernel),
    (hinterfaces 3 "eth0" rfl).figures (10, .counter32 7) (by decide +kernel),
    (hinterfaces 2 "tun9" rfl).figures (10, .counter32 0) (by decide +kernel),
    (hdisks 2 "/" rfl).figures (6, .integer 2147483647) (by decide +kernel)⟩

end MibStore

end SnmpAgent
