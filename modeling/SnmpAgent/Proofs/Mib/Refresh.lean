import SnmpAgent.Proofs.Mib.Samples
import SnmpAgent.Proofs.Steps
import SnmpAgent.Mib.Store
import SnmpAgent.Engine.Response

/-!
# What a refresh changes

Requests and refreshes write to the store, but only over the encoded values of
variables with a metric. What is left when these are *blanked* is fixed when
the store is built. Searches do not look at encoded values, and a variable
with a metric is refreshed before it is answered with. So the blank store and
one snapshot tell every answer.

* `Entry.octetsAt`: the element of a variable as of a snapshot;
* `MibStore.blank`: the store without the values of metrics, which every search
  may be made in;
* `MibStore.refreshAll_eq`: a refresh of all variables gives the store as of a
  snapshot (`MibStore.asOf`);
* `MibStore.refresh_blank`, `MibStore.refreshAll_blank`: refreshes succeed and
  leave the blank store alone.
-/

namespace SnmpAgent

namespace Entry

/-- The element of a variable, as of a snapshot. -/
def octetsAt (e : Entry) (s : Snapshot) : List UInt8 :=
  match e.metric? with
  | none => e.encoded
  | some m => m.octets s

/-- The variable with its element as of a snapshot. -/
def asOf (e : Entry) (s : Snapshot) : Entry := { e with encoded := e.octetsAt s }

/-- The variable without its value, if that changes. -/
def blank (e : Entry) : Entry :=
  match e.metric? with
  | none => e
  | some _ => { e with encoded := [] }

/-- A refresh succeeds, and the value is then as of the snapshot. -/
theorem refresh_eq (e : Entry) (s : Snapshot) : e.refresh s = .ok (e.asOf s) := by
  obtain ⟨tag, encoded, metric?⟩ := e
  cases metric? with
  | none => rfl
  | some m =>
    simp only [refresh, asOf, octetsAt, m.tlv_sample s]
    rfl

/-- Where there is a metric, the element is then a sample. -/
theorem tlv_sample_asOf {e : Entry} {s : Snapshot} {m : Metric}
    (h : (e.asOf s).metric? = some m) : (m.sample s).tlv = .ok (e.asOf s).encoded := by
  have hmetric : e.metric? = some m := h
  have hoctets : e.octetsAt s = m.octets s := by
    rw [octetsAt, hmetric]
  exact (m.tlv_sample s).trans (congrArg Except.ok hoctets.symm)

theorem octetsAt_blank (e : Entry) (s : Snapshot) : e.blank.octetsAt s = e.octetsAt s := by
  obtain ⟨tag, encoded, metric?⟩ := e
  cases metric? <;> rfl

/-- A refresh is not seen in the blank variable. -/
theorem blank_asOf (e : Entry) (s : Snapshot) : (e.asOf s).blank = e.blank := by
  obtain ⟨tag, encoded, metric?⟩ := e
  cases metric? <;> rfl

end Entry

namespace MibStore

/-- The store without the values of metrics. -/
def blank (m : MibStore) : MibStore :=
  ⟨{ m.table with entries := m.table.entries.map fun p => (p.1, p.2.blank) }⟩

/-- The variable at a position with its value as of a snapshot. -/
def bindingAt (m : MibStore) (s : Snapshot) (i : Nat) : Option Binding :=
  (m.get? i).map fun (oid, e) => ⟨oid, e.octetsAt s⟩

variable {m : MibStore}

/-! ## Searches -/

theorem get?_blank (m : MibStore) (i : Nat) :
    m.blank.get? i = (m.get? i).map fun p => (p.1, p.2.blank) := List.getElem?_map

theorem length_blank (m : MibStore) : m.blank.length = m.length := List.length_map _

theorem bindingAt_blank (m : MibStore) (s : Snapshot) (i : Nat) :
    m.blank.bindingAt s i = m.bindingAt s i := by
  rw [bindingAt, get?_blank, bindingAt, Option.map_map]
  congr 1
  funext ⟨oid, e⟩
  exact congrArg (Binding.mk oid) (e.octetsAt_blank s)

/-- No search looks at values: it is the same in the blank store. -/
theorem lowerBound_blank (m : MibStore) (oid : Oid) :
    m.blank.table.lowerBound oid = m.table.lowerBound oid := by
  rw [OidTable.lowerBound, blank, List.takeWhile_map, List.length_map]
  rfl

theorem upperBound_blank (m : MibStore) (oid : Oid) :
    m.blank.table.upperBound oid = m.table.upperBound oid := by
  rw [OidTable.upperBound, blank, List.takeWhile_map, List.length_map]
  rfl

theorem any_get?_blank (m : MibStore) (i : Nat) (p : Oid → Bool) :
    (m.blank.get? i).any (p ·.1) = (m.get? i).any (p ·.1) := by
  rw [get?_blank, Option.any_map]

theorem findAtOrBelow?_blank (m : MibStore) (oid : Oid) (start : Nat) :
    m.blank.findAtOrBelow? oid start = m.findAtOrBelow? oid start := by
  have hcandidate : m.blank.candidate oid start = m.candidate oid start := by
    rw [candidate, lowerBound_blank, candidate]
  simp only [findAtOrBelow?, hcandidate]
  rw [any_get?_blank m _ (·.startsWith oid)]

theorem findNext?_blank (m : MibStore) (oid : Oid) : m.blank.findNext? oid = m.findNext? oid := by
  simp only [findNext?, upperBound_blank, length_blank]

/-! ## Refreshes -/

/-- A refresh succeeds. It writes the value of one variable, as of the snapshot,
    and leaves the blank store alone. -/
theorem refresh_blank (m : MibStore) (i : Nat) (s : Snapshot) : ∃ m', m.refresh i s = .ok m' ∧
    m'.blank = m.blank ∧ ∀ oid e, m.get? i = some (oid, e) →
      m'.get? i = some (oid, e.asOf s) := by
  rw [refresh]
  cases h : m.get? i with
  | none => exact ⟨m, rfl, rfl, fun oid e h => by cases h⟩
  | some p =>
    obtain ⟨oid, e⟩ := p
    have hentry : m.table.entries[i]? = some (oid, e) := h
    refine ⟨⟨m.table.set i (e.asOf s)⟩, ?_, ?_, ?_⟩
    · dsimp only
      rw [e.refresh_eq s]
      rfl
    · -- Two blank stores with the same names and metrics at every position are equal.
      simp only [blank, MibStore.mk.injEq, OidTable.set, OidTable.mk.injEq, and_true]
      refine List.ext_getElem? fun j => ?_
      rw [List.getElem?_map, List.getElem?_map, List.getElem?_modify]
      rcases eq_or_ne i j with rfl | hij
      · rw [hentry]
        simp [e.blank_asOf s]
      · simp [hij]
    · intro oid' e' h'
      cases h'
      rw [get?, OidTable.get?, OidTable.set, List.getElem?_modify, hentry]
      simp

/-- The store with all elements as of a snapshot. -/
def asOf (m : MibStore) (s : Snapshot) : MibStore :=
  ⟨{ m.table with entries := m.table.entries.map fun p => (p.1, p.2.asOf s) }⟩

/-- A refresh writes the entry behind `done`. -/
theorem refresh_append_cons (s : Snapshot) (capacity : Nat) (done todo : List (Oid × Entry))
    (p : Oid × Entry) : MibStore.refresh ⟨⟨done ++ p :: todo, capacity⟩⟩ done.length s =
      .ok ⟨⟨done ++ (p.1, p.2.asOf s) :: todo, capacity⟩⟩ := by
  have hget : (MibStore.mk ⟨done ++ p :: todo, capacity⟩).get? done.length = some p := by
    simp [get?, OidTable.get?]
  have hset : (done ++ p :: todo).modify done.length (fun entry => (entry.1, p.2.asOf s)) =
      done ++ (p.1, p.2.asOf s) :: todo := by
    rw [List.modify_eq_take_cons_drop (by simp)]
    simp
  rw [refresh, hget]
  dsimp only
  rw [p.2.refresh_eq s]
  exact congrArg (fun entries => Except.ok (MibStore.mk ⟨entries, capacity⟩)) hset

/-- Refreshes of the entries behind `done` write all of them. -/
theorem refreshFrom_append (s : Snapshot) (capacity : Nat) (done todo : List (Oid × Entry)) :
    refreshFrom s done.length todo.length ⟨⟨done ++ todo, capacity⟩⟩ =
      (⟨⟨done ++ todo.map fun p => (p.1, p.2.asOf s), capacity⟩⟩, .ok ()) := by
  induction todo generalizing done with
  | nil => rfl
  | cons p todo ih =>
    have hrest := ih (done ++ [(p.1, p.2.asOf s)])
    rw [List.length_append, List.length_singleton, List.append_assoc, List.singleton_append,
      List.append_assoc, List.singleton_append] at hrest
    rw [List.length_cons, refreshFrom, refresh_append_cons]
    exact hrest

/-- A refresh of all variables succeeds, and the store is then as of the
    snapshot. -/
theorem refreshAll_eq (m : MibStore) (s : Snapshot) : m.refreshAll s = (m.asOf s, .ok ()) :=
  refreshFrom_append s m.table.capacity [] m.table.entries

/-- Refreshes of all variables succeed and leave the blank store alone. -/
theorem refreshAll_blank (m : MibStore) (s : Snapshot) :
    (m.refreshAll s).2 = .ok () ∧ (m.refreshAll s).1.blank = m.blank := by
  rw [refreshAll_eq]
  refine ⟨rfl, ?_⟩
  simp [blank, asOf, Entry.blank_asOf]

end MibStore

end SnmpAgent
