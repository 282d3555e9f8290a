import SnmpAgent.Proofs.Mib.Provenance

/-!
# The store at an instant

A refresh of all variables writes them anew from one snapshot, and what they
held before is not seen any more. So a store is *as of* the last snapshot that
it was refreshed from, or built from if there was none, and every cell of its
definitions is shown with its value in that snapshot.

* `MibStore.asOf_of_build`: a store is as of the snapshot it was built from;
* `MibStore.refreshedFrom_eq`: after any number of refreshes only the last one
  counts;
* `MibStore.Shows`, `MibStore.shows_of_build`: what is shown under a name.
-/

namespace SnmpAgent

namespace MibStore

variable {m : MibStore} {s : Snapshot}

/-! ## Refreshing again and again -/

/-- A second snapshot leaves nothing of the first one. -/
theorem asOf_asOf (m : MibStore) (s s' : Snapshot) : (m.asOf s).asOf s' = m.asOf s' := by
  have hentry : ∀ e : Entry, (e.asOf s).asOf s' = e.asOf s' := by
    rintro ⟨tag, encoded, metric?⟩
    cases metric? <;> rfl
  simp [asOf, hentry]

/-- A store is as of the snapshot that it was built from. -/
theorem asOf_of_build {definitions : List Definition} {capacity : Nat}
    (h : build definitions s capacity = .ok m) : m.asOf s = m := by
  have hentry : ∀ p ∈ m.table.entries, (p.1, p.2.asOf s) = p := by
    rintro ⟨oid, e⟩ hp
    obtain ⟨i, hi⟩ := List.mem_iff_getElem?.1 hp
    obtain ⟨d, -, cell, -, hmade⟩ := exists_instance_of_build h hi
    obtain ⟨-, -, -, htlv, -⟩ := entry_eq_ok.1 hmade
    have hoctets := htlv.symm.trans (tlv_value_of_entry hmade s).1
    rw [Entry.asOf, ← Except.ok.inj hoctets]
  rw [asOf, List.map_congr_left hentry, List.map_id']

/-- The store after its variables were refreshed from some snapshots, one after
    another. -/
def refreshedFrom (m : MibStore) (later : List Snapshot) : MibStore :=
  later.foldl (fun m s => (m.refreshAll s).1) m

/-- After refreshes of all variables a store is as of the last snapshot. -/
theorem refreshedFrom_eq (h : m.asOf s = m) (later : List Snapshot) :
    m.refreshedFrom later = m.asOf (later.getLastD s) := by
  induction later generalizing m s with
  | nil => exact h.symm
  | cons s' later ih =>
    rw [refreshedFrom, List.foldl_cons, refreshAll_eq, List.getLastD_cons]
    exact (ih (m.asOf_asOf s' s')).trans (m.asOf_asOf s' _)

/-! ## What is shown -/

/-- A store shows a value under a name: a search for the name ends at an entry
    of that name, whose element is that of the value and is read as it. -/
def Shows (m : MibStore) (oid : Oid) (v : Value) : Prop :=
  ∃ i e, m.findAtOrBelow? oid 0 = some i ∧ m.get? i = some (oid, e) ∧
    v.tlv = .ok e.encoded ∧ e.value = .ok v

theorem get?_asOf (m : MibStore) (s : Snapshot) (i : Nat) :
    (m.asOf s).get? i = (m.get? i).map fun p => (p.1, p.2.asOf s) := List.getElem?_map

theorem ascending_asOf (h : m.table.Ascending) (s : Snapshot) : (m.asOf s).table.Ascending :=
  List.pairwise_map.2 h

/-- As of a snapshot, every instance of a definition is shown with the value of
    its cell. -/
theorem shows_of_build {definitions : List Definition} {capacity : Nat}
    (h : build definitions s capacity = .ok m) {d : Definition} (hd : d ∈ definitions) {oid : Oid}
    {cell : Cell} (hinstance : (oid, cell) ∈ d.instances) {s' : Snapshot}
    (hvalue : (cell.value s').Canonical) : (m.asOf s').Shows oid (cell.value s') := by
  obtain ⟨i, e, hentry, hmade⟩ := exists_entry_of_build h hd hinstance
  have hentry' : (m.asOf s').get? i = some (oid, e.asOf s') := by
    rw [get?_asOf, hentry]
    rfl
  have htlv : (cell.value s').tlv = .ok (e.asOf s').encoded := (tlv_value_of_entry hmade s').1
  have hread := (Entry.read_of_tlv hvalue.legible htlv).2
  rw [hvalue.repacked_eq] at hread
  exact ⟨i, e.asOf s', findAtOrBelow?_eq (ascending_asOf (ascending_of_build h) s') hentry',
    hentry', htlv, hread⟩

end MibStore

end SnmpAgent
