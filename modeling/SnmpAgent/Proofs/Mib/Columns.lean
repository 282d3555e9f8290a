import SnmpAgent.Proofs.Mib.Rows
import SnmpAgent.Proofs.Mib.Defects
import SnmpAgent.Proofs.Oid.Subtrees

/-!
# Columns

The instances of a definition lie beneath one node, the column, in the order of
their rows. Where the columns of some definitions stand one behind the other,
the names of all instances ascend, however many rows there are: only the number
of a row is limited, to 32 bits. If each instance can be entered, too, then
definitions can be refused for their number alone.

* `Definition.node`: the column of a definition;
* `MibStore.pairwise_take_instances`: the names of instances ascend;
* `Definition.WellTyped`: definitions whose instances can be entered;
* `MibStore.build_of_apart`: the number of instances decides whether there is a
  store.
-/

namespace SnmpAgent

namespace Definition

/-! ## Names -/

/-- The node of a column, which the names of its instances lie beneath. -/
def node (d : Definition) : Oid := d.root.join [d.column]

/-- A name with a column and a row lies beneath the node of the column. -/
theorem join_column_row (root : Oid) (column row : UInt32) :
    root.join [column, row] = (root.join [column]).join [row] := by
  simp [Oid.join]

variable {root : Oid} {column : UInt32}

theorem length_rowsFrom (row : Nat) (cells : List Cell) :
    (rowsFrom root column row cells).length = cells.length := by
  induction cells generalizing row with
  | nil => rfl
  | cons cell cells ih => rw [rowsFrom, List.length_cons, List.length_cons, ih]

/-- A definition has as many instances as cells. -/
theorem length_instances (d : Definition) : d.instances.length = d.rows.cells.length := by
  rw [instances]
  cases d.rows with
  | scalar cell => rfl
  | table cells => exact length_rowsFrom 1 cells

/-- The names of rows ascend as long as the numbers of the rows have 32 bits. -/
theorem pairwise_take_rowsFrom (cells : List Cell) {row n : Nat} (h : row + n ≤ 2 ^ 32) :
    ((rowsFrom root column row cells).take n).Pairwise fun p q => p.1 < q.1 := by
  have hname : ∀ i (hi : i < ((rowsFrom root column row cells).take n).length),
      (((rowsFrom root column row cells).take n)[i]).1 =
        (root.join [column]).join [UInt32.ofNat (row + i)] := by
    intro i hi
    rw [List.getElem_take]
    have hget : (rowsFrom root column row cells)[i]? = _ := getElem?_rowsFrom row cells i
    rw [List.getElem?_eq_getElem (Nat.lt_of_lt_of_le hi (List.length_take_le' _ _))] at hget
    obtain ⟨cell, -, hcell⟩ := Option.map_eq_some_iff.1 hget.symm
    rw [← hcell, join_column_row]
  -- No number of a row wraps around, so a later row has a greater one.
  refine List.pairwise_iff_getElem.2 fun i j hi hj hij => ?_
  have hjn : j < n := Nat.lt_of_lt_of_le hj (List.length_take_le _ _)
  rw [hname i hi, hname j hj]
  refine Oid.join_lt_join_of_lt ?_
  rw [UInt32.lt_iff_toNat_lt, UInt32.toNat_ofNat_of_lt' (by simp only [UInt32.size]; omega),
    UInt32.toNat_ofNat_of_lt' (by simp only [UInt32.size]; omega)]
  omega

/-- The names of the leading instances of a definition ascend. -/
theorem pairwise_take_instances (d : Definition) {n : Nat} (hn : n < 2 ^ 32) :
    (d.instances.take n).Pairwise fun p q => p.1 < q.1 := by
  rw [instances]
  cases d.rows with
  | scalar cell => exact (List.pairwise_singleton _ _).sublist (List.take_sublist _ _)
  | table cells => exact pairwise_take_rowsFrom cells (by omega)

end Definition

/-! ## Values -/

/-- The values of a cell have a given type, and their contents are not too long
    to be written. -/
def Cell.Suits (type : ValueType) (cell : Cell) : Prop :=
  ∀ s, (cell.value s).type = type ∧ (cell.value s).content.length ≤ Length.max

/-- A definition of values of one type, which are no markers, below a node. -/
structure Definition.WellTyped (d : Definition) : Prop where
  root : d.root.IsNode
  cells : ∃ type : ValueType, ¬type.isMarker ∧ d.tag = type.tag ∧
    ∀ cell ∈ d.rows.cells, cell.Suits type

namespace MibStore

/-- A tag that is not one of a marker can be that of a variable. -/
theorem isStorable_tag {type : ValueType} (h : ¬type.isMarker) : isStorable type.tag := by
  rw [isStorable, ValueType.ofTag?_tag]
  simpa using h

/-- The instances of a well-typed definition can be entered. -/
theorem enterable_of_wellTyped {d : Definition} (h : d.WellTyped) (s : Snapshot) {p : Oid × Cell}
    (hp : p ∈ d.instances) : Enterable s (d.tag, p) := by
  obtain ⟨type, hmarker, htag, hcells⟩ := h.cells
  obtain ⟨⟨row, hname⟩, hcell⟩ := Definition.mem_instances hp
  obtain ⟨htype, hlength⟩ := hcells p.2 hcell s
  obtain ⟨hvalid, hroot⟩ := h.root
  exact {
    arity := by
      rw [hname]
      simpa [Oid.join, Oid.length] using hroot
    supported := by
      dsimp only
      rw [htag]
      exact isStorable_tag hmarker
    tag := by
      dsimp only
      rw [htag, Value.tag, htype]
    fits := hlength }

/-! ## Instances -/

variable {definitions : List Definition} {s : Snapshot} {capacity : Nat}

/-- The instances of some definitions are those of the first one and then those
    of the others. -/
theorem instances_cons (d : Definition) (definitions : List Definition) :
    instances (d :: definitions) = d.instances.map (d.tag, ·) ++ instances definitions := rfl

/-- The number of cells that some definitions have. -/
def cellCount (definitions : List Definition) : Nat :=
  (definitions.map (·.rows.cells.length)).sum

theorem cellCount_append (definitions others : List Definition) :
    cellCount (definitions ++ others) = cellCount definitions + cellCount others := by
  rw [cellCount, List.map_append, List.sum_append]
  rfl

/-- There are as many instances as all definitions have cells. -/
theorem length_instances (definitions : List Definition) :
    (instances definitions).length = cellCount definitions := by
  induction definitions with
  | nil => rfl
  | cons d definitions ih =>
    rw [instances_cons, List.length_append, List.length_map, d.length_instances, ih]
    rfl

/-- An instance has its name beneath the column of its definition. -/
theorem exists_of_mem_instances {i : Tag × Oid × Cell} (h : i ∈ instances definitions) :
    ∃ d ∈ definitions, i.1 = d.tag ∧ i.2 ∈ d.instances ∧
      ∃ row, i.2.1 = d.node.join [row] := by
  obtain ⟨d, hd, hi⟩ := List.mem_flatMap.1 h
  obtain ⟨p, hp, rfl⟩ := List.mem_map.1 hi
  obtain ⟨⟨row, hname⟩, -⟩ := Definition.mem_instances hp
  exact ⟨d, hd, rfl, hp, row, hname.trans (Definition.join_column_row _ _ _)⟩

/-- Where columns stand one behind the other, the names of the leading instances
    ascend, as long as their number has 32 bits. -/
theorem pairwise_take_instances (h : definitions.Pairwise fun d e => d.node.Apart e.node) {n : Nat}
    (hn : n < 2 ^ 32) : ((instances definitions).take n).Pairwise fun i j => i.2.1 < j.2.1 := by
  induction definitions generalizing n with
  | nil =>
    rw [instances, List.flatMap_nil, List.take_nil]
    exact .nil
  | cons d definitions ih =>
    obtain ⟨hd, hdefinitions⟩ := List.pairwise_cons.1 h
    rw [instances_cons, List.take_append, ← List.map_take]
    refine List.pairwise_append.2 ⟨?_, ih hdefinitions (by omega), fun i hi j hj => ?_⟩
    · exact List.pairwise_map.2 (d.pairwise_take_instances hn)
    · -- The names lie beneath two columns.
      obtain ⟨p, hp, rfl⟩ := List.mem_map.1 hi
      obtain ⟨⟨row, hrow⟩, -⟩ := Definition.mem_instances (List.mem_of_mem_take hp)
      obtain ⟨e, he, -, -, row', hrow'⟩ := exists_of_mem_instances (List.mem_of_mem_take hj)
      dsimp only
      rw [hrow, hrow', Definition.join_column_row]
      exact (hd e he).join_lt_join _ _

/-! ## Stores -/

/-- An instance that can be entered where there is no room for it is refused for
    that. -/
theorem defect?_eq_overflow {before : List (Tag × Oid × Cell)} {i : Tag × Oid × Cell}
    (h : Enterable s i) (hfull : capacity ≤ before.length) :
    defect? s capacity before i = some .overflow := by
  have harity : ¬Defect.Occurs s capacity before i .arity := Nat.not_lt.2 h.arity
  have hsupported : ¬Defect.Occurs s capacity before i .unsupported := not_not.2 h.supported
  have htag : ¬Defect.Occurs s capacity before i .mismatch := not_not.2 h.tag
  have hfits : ¬Defect.Occurs s capacity before i .encoding := Nat.not_lt.2 h.fits
  have hoverflow : Defect.Occurs s capacity before i .overflow := hfull
  simp [defect?, Defect.all, harity, hsupported, htag, hfits, hoverflow]

/-- Well-typed definitions whose columns stand one behind the other have a store
    exactly if there is room for their instances. Otherwise the first instance
    without room is refused. -/
theorem build_of_apart (hcapacity : capacity < 2 ^ 32)
    (hapart : definitions.Pairwise fun d e => d.node.Apart e.node)
    (htyped : ∀ d ∈ definitions, d.WellTyped) (s : Snapshot) :
    ((instances definitions).length ≤ capacity → ∃ m, build definitions s capacity = .ok m) ∧
      (capacity < (instances definitions).length →
        ∃ i, (instances definitions)[capacity]? = some i ∧
          build definitions s capacity = .error (.mib (.tableOverflow capacity) i.2.1)) := by
  have henter : ∀ i ∈ instances definitions, Enterable s i := by
    intro i hi
    obtain ⟨d, hd, htag, hp, -⟩ := exists_of_mem_instances hi
    have hd := enterable_of_wellTyped (htyped d hd) s hp
    rwa [← htag] at hd
  have hascend := pairwise_take_instances hapart hcapacity
  -- As many instances as there is room for are sound.
  have hsound : Sound s capacity ((instances definitions).take capacity) :=
    sound_iff.2 ⟨List.length_take_le _ _, hascend, fun i hi => henter i (List.mem_of_mem_take hi)⟩
  constructor
  · intro hroom
    rw [List.take_of_length_le hroom] at hsound
    exact hsound.exists_build
  · intro hmany
    refine ⟨_, List.getElem?_eq_getElem hmany, ?_⟩
    have hsplit : instances definitions = (instances definitions).take capacity ++
        (instances definitions)[capacity] :: (instances definitions).drop (capacity + 1) := by
      rw [← List.drop_eq_getElem_cons hmany, List.take_append_drop]
    refine build_eq_error hsplit hsound (defect?_eq_overflow (henter _ (List.getElem_mem hmany)) ?_)
    exact (List.length_take_of_le hmany.le).ge

end MibStore

end SnmpAgent
