import SnmpAgent.Proofs.Mib.Legibility
import SnmpAgent.Proofs.Mib.Ascent
import SnmpAgent.Proofs.Oid.Wire

/-!
# The names of the standard variables

All standard nodes lie below 1.3, whatever the configuration. So the names of
the standard variables are read back as they are, and a search for one of them
ends where it stands.

* `MibStore.canonical_of_build`: the names of the standard variables;
* `MibStore.next?_eq`, `MibStore.lookup?_eq`: where searches for names end.
-/

namespace SnmpAgent

/-- Names below a node in the first arcs are canonical. -/
theorem Oid.IsNode.canonical_join {root : Oid} (h : root.IsNode)
    (harc : root.subids.take 2 = [1, 3]) (column row : UInt32) :
    (root.join [column, row]).Canonical := by
  obtain ⟨-, hlength⟩ := h
  obtain ⟨first, second, rest, rfl⟩ : ∃ first second rest, root = ⟨first :: second :: rest⟩ := by
    obtain ⟨_ | ⟨first, _ | ⟨second, rest⟩⟩⟩ := root
    · cases harc
    · cases harc
    · exact ⟨first, second, rest, rfl⟩
  obtain ⟨rfl, rfl⟩ : first = 1 ∧ second = 3 := by simpa using harc
  refine ⟨1, 3, rest ++ [column, row], rfl, ?_, .inl (by decide)⟩
  simpa [length] using hlength

/-- The standard nodes do not depend on the configuration. -/
theorem map_root_standardDefinitions (c : AgentConfig) (s : Snapshot) :
    (standardDefinitions c s).map (·.root) = (standardDefinitions {} {}).map (·.root) := rfl

theorem isNode_of_mem_standardDefinitions {c : AgentConfig} {s : Snapshot} {d : Definition}
    (h : d ∈ standardDefinitions c s) : d.root.IsNode ∧ d.root.subids.take 2 = [1, 3] := by
  have hroots : ∀ root ∈ (standardDefinitions {} {}).map (·.root),
      root.IsNode ∧ root.subids.take 2 = [1, 3] := by
    decide
  refine hroots d.root ?_
  rw [← map_root_standardDefinitions c s]
  exact List.mem_map_of_mem h

namespace MibStore

/-- The names of the standard variables are read back as they are. -/
theorem canonical_of_build {c : AgentConfig} {s₁ s₂ : Snapshot} {capacity : Nat} {m : MibStore}
    (h : build (standardDefinitions c s₁) s₂ capacity = .ok m) {i : Nat} {oid : Oid} {e : Entry}
    (hentry : m.get? i = some (oid, e)) : oid.Canonical := by
  obtain ⟨d, hd, cell, hcell, -⟩ := exists_instance_of_build h hentry
  obtain ⟨⟨row, hrow⟩, -⟩ := Definition.mem_instances hcell
  obtain ⟨hnode, harc⟩ := isNode_of_mem_standardDefinitions hd
  dsimp only at hrow
  rw [hrow]
  exact hnode.canonical_join harc d.column row

variable {m : MibStore}

/-- After a name comes what stands behind the entries that are not above it. -/
theorem next?_eq (m : MibStore) (s : Snapshot) (oid : Oid) :
    m.next? s oid = m.bindingAt s (m.table.upperBound oid) := by
  rw [next?, findNext?]
  split_ifs with h
  · rfl
  · have hnone : m.get? (m.table.upperBound oid) = none :=
      List.getElem?_eq_none (Nat.le_of_not_lt h)
    rw [bindingAt, hnone]
    rfl

/-- Under a name of the store stands its entry. -/
theorem lookup?_eq (h : m.table.Ascending) {i : Nat} {oid : Oid} {e : Entry}
    (hentry : m.get? i = some (oid, e)) (s : Snapshot) : m.lookup? s oid = m.bindingAt s i := by
  rw [lookup?, findAtOrBelow?_eq h hentry]
  dsimp only
  rw [hentry, if_pos (by simp)]

end MibStore

end SnmpAgent
