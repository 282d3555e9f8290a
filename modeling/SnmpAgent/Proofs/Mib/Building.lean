import SnmpAgent.Proofs.Mib.Refresh
import Mathlib.Data.List.Forall2

/-!
# What a store is built of

A store that is built has one entry for each instance of its definitions, in
their order, and each entry is what its cell gave. The snapshot only decides
the values of metrics: two stores of the same definitions have the same blank
store.

* `MibStore.entry_eq_ok`: the entry of a cell;
* `MibStore.enter_eq_ok`: what entering it takes;
* `MibStore.build_eq_ok`: the entries of a store;
* `MibStore.blank_eq_of_build`: the blank store of some definitions.
-/

namespace SnmpAgent

/-- A push that is not refused appends the entry. -/
theorem OidTable.entries_of_push {α : Type} {t t' : OidTable α} {oid : Oid} {a : α}
    (h : t.push oid a = .ok t') :
    t.length ≠ t.capacity ∧ t' = { t with entries := t.entries ++ [(oid, a)] } := by
  rw [push] at h
  split_ifs at h with hfull
  cases h
  exact ⟨hfull, rfl⟩

namespace MibStore

variable {tag : Tag} {s : Snapshot} {oid : Oid} {cell : Cell} {e : Entry}

/-- A cell is entered under a name that is not too long, if variables can have
    the declared tag and its value has that tag and an element. -/
theorem entry_eq_ok : entry tag s oid cell = .ok e ↔ oid.length ≤ Oid.maxSubids ∧
    isStorable tag ∧ (cell.value s).tag = tag ∧ (cell.value s).tlv = .ok e.encoded ∧
      e.tag = tag ∧ e.metric? = cell.metric? := by
  rw [entry, guard_eq_ok, guard_eq_ok, guard_eq_ok, Nat.not_lt, not_not, not_not]
  refine and_congr_right fun _ => and_congr_right fun _ => and_congr_right fun _ => ?_
  cases (cell.value s).tlv with
  | ok encoded =>
    constructor
    · intro h
      cases h
      exact ⟨rfl, rfl, rfl⟩
    · rintro ⟨h, htag, hmetric⟩
      cases h
      rw [← htag, ← hmetric]
      rfl
  | error e =>
    constructor
    · intro h
      cases h
    · rintro ⟨h, -⟩
      cases h

/-- The instances that a list of entries was made of, in the same order. -/
def MadeOf (s : Snapshot) : List (Tag × Oid × Cell) → List (Oid × Entry) → Prop :=
  List.Forall₂ fun i p => p.1 = i.2.1 ∧ entry i.1 s i.2.1 i.2.2 = .ok p.2

/-- An instance is entered if it has an entry that the table accepts. -/
theorem enter_eq (s : Snapshot) (table : OidTable Entry) (tag : Tag) (oid : Oid) (cell : Cell) :
    enter s table tag oid cell =
      entry tag s oid cell >>= fun e => (table.push oid e).mapError (.mib · oid) := by
  rw [enter]
  congr 1
  funext e
  cases table.push oid e <;> rfl

theorem enter_eq_ok {table table' : OidTable Entry} : enter s table tag oid cell = .ok table' ↔
    ∃ e, entry tag s oid cell = .ok e ∧ table.push oid e = .ok table' := by
  rw [enter_eq, except_bind_eq_ok]
  refine exists_congr fun e => and_congr_right fun _ => ?_
  cases table.push oid e with
  | ok table'' => rw [Except.mapError, Except.ok.injEq, Except.ok.injEq]
  | error fault => exact ⟨nofun, nofun⟩

/-- The names of entries are those of the instances that they were made of. -/
theorem MadeOf.names_eq {instances : List (Tag × Oid × Cell)} {entries : List (Oid × Entry)}
    (h : MadeOf s instances entries) : entries.map (·.1) = instances.map (·.2.1) := by
  induction h with
  | nil => rfl
  | cons hentry _ ih => rw [List.map_cons, List.map_cons, ih, hentry.1]

/-- Entering instances appends an entry for each. -/
theorem foldlM_enter_eq_ok {instances : List (Tag × Oid × Cell)} {table table' : OidTable Entry}
    (h : instances.foldlM (fun table (tag, oid, cell) => enter s table tag oid cell) table =
      .ok table') : ∃ entries, MadeOf s instances entries ∧
        table' = { table with entries := table.entries ++ entries } := by
  induction instances generalizing table with
  | nil =>
    cases h
    exact ⟨[], .nil, by rw [List.append_nil]⟩
  | cons i instances ih =>
    obtain ⟨tag, oid, cell⟩ := i
    rw [List.foldlM_cons] at h
    obtain ⟨table₁, h₁, h⟩ := except_bind_eq_ok.1 h
    obtain ⟨e, he, hpush⟩ := enter_eq_ok.1 h₁
    obtain ⟨-, rfl⟩ := OidTable.entries_of_push hpush
    obtain ⟨entries, hentries, rfl⟩ := ih h
    refine ⟨(oid, e) :: entries, .cons ⟨rfl, he⟩ hentries, ?_⟩
    rw [List.append_assoc]
    rfl

/-- From the empty table, entering instances leads to one with an entry for
    each. -/
theorem madeOf_of_foldlM_enter {instances : List (Tag × Oid × Cell)} {capacity : Nat}
    {table : OidTable Entry}
    (h : instances.foldlM (fun table (tag, oid, cell) => enter s table tag oid cell)
      (OidTable.empty capacity) = .ok table) :
    MadeOf s instances table.entries ∧ table.capacity = capacity := by
  obtain ⟨entries, hentries, rfl⟩ := foldlM_enter_eq_ok h
  exact ⟨hentries, rfl⟩

/-- A store has one entry for each instance of its definitions. -/
theorem build_eq_ok {definitions : List Definition} {capacity : Nat} {m : MibStore}
    (h : build definitions s capacity = .ok m) :
    MadeOf s (instances definitions) m.table.entries ∧ m.table.capacity = capacity := by
  obtain ⟨table, htable, h⟩ := except_bind_eq_ok.1 h
  cases h
  exact madeOf_of_foldlM_enter htable

/-- The entry at a position of a store that was built comes from the instance at
    that position. -/
theorem getElem?_instances_of_build {definitions : List Definition} {capacity : Nat} {m : MibStore}
    (h : build definitions s capacity = .ok m) {i : Nat} (hentry : m.get? i = some (oid, e)) :
    ∃ tag cell, (instances definitions)[i]? = some (tag, oid, cell) ∧
      entry tag s oid cell = .ok e := by
  obtain ⟨hall, -⟩ := build_eq_ok h
  obtain ⟨hi, hentry⟩ := List.getElem?_eq_some_iff.1 hentry
  have hi' : i < (instances definitions).length := hall.length_eq ▸ hi
  have hmade := hall.get hi' hi
  rw [List.get_eq_getElem, List.get_eq_getElem, hentry] at hmade
  obtain ⟨hname, hmade⟩ := hmade
  have hname : oid = (instances definitions)[i].2.1 := hname
  refine ⟨(instances definitions)[i].1, (instances definitions)[i].2.2, ?_, ?_⟩
  · rw [List.getElem?_eq_getElem hi', hname]
  · rw [hname]
    exact hmade

/-- Every entry of a store that was built comes from an instance of a
    definition. -/
theorem exists_instance_of_build {definitions : List Definition} {capacity : Nat} {m : MibStore}
    (h : build definitions s capacity = .ok m) {i : Nat} (hentry : m.get? i = some (oid, e)) :
    ∃ d ∈ definitions, ∃ cell, (oid, cell) ∈ d.instances ∧ entry d.tag s oid cell = .ok e := by
  obtain ⟨tag, cell, hinstance, hmade⟩ := getElem?_instances_of_build h hentry
  obtain ⟨d, hd, hinstance⟩ := List.mem_flatMap.1 (List.mem_of_getElem? hinstance)
  obtain ⟨p, hp, hinstance⟩ := List.mem_map.1 hinstance
  cases hinstance
  exact ⟨d, hd, p.2, hp, hmade⟩

/-- Every instance of a definition has an entry in a store that was built. -/
theorem exists_entry_of_build {definitions : List Definition} {capacity : Nat} {m : MibStore}
    (h : build definitions s capacity = .ok m) {d : Definition} (hd : d ∈ definitions)
    (hinstance : (oid, cell) ∈ d.instances) :
    ∃ i e, m.get? i = some (oid, e) ∧ entry d.tag s oid cell = .ok e := by
  obtain ⟨hall, -⟩ := build_eq_ok h
  have hmem : (d.tag, oid, cell) ∈ instances definitions :=
    List.mem_flatMap.2 ⟨d, hd, List.mem_map.2 ⟨_, hinstance, rfl⟩⟩
  obtain ⟨i, hi, heq⟩ := List.getElem_of_mem hmem
  have hi' : i < m.table.entries.length := hall.length_eq ▸ hi
  have hmade := hall.get hi hi'
  rw [List.get_eq_getElem, List.get_eq_getElem, heq] at hmade
  obtain ⟨hname, hmade⟩ := hmade
  refine ⟨i, m.table.entries[i].2, ?_, hmade⟩
  rw [get?, OidTable.get?, List.getElem?_eq_getElem hi']
  exact congrArg some (Prod.ext hname rfl)

/-- The snapshot is not seen in a blank entry. -/
theorem blank_eq_of_entry {s₁ s₂ : Snapshot} {e₁ e₂ : Entry} (h₁ : entry tag s₁ oid cell = .ok e₁)
    (h₂ : entry tag s₂ oid cell = .ok e₂) : e₁.blank = e₂.blank := by
  obtain ⟨-, -, -, henc₁, htag₁, hmetric₁⟩ := entry_eq_ok.1 h₁
  obtain ⟨-, -, -, henc₂, htag₂, hmetric₂⟩ := entry_eq_ok.1 h₂
  obtain ⟨tag₁, encoded₁, metric₁⟩ := e₁
  obtain ⟨tag₂, encoded₂, metric₂⟩ := e₂
  cases htag₁
  cases htag₂
  cases hmetric₁
  cases hmetric₂
  cases cell with
  | fixed v =>
    cases henc₁.symm.trans henc₂
    rfl
  | metric m => rfl

theorem MadeOf.blank_eq {s₁ s₂ : Snapshot} {instances : List (Tag × Oid × Cell)}
    {entries₁ entries₂ : List (Oid × Entry)} (h₁ : MadeOf s₁ instances entries₁)
    (h₂ : MadeOf s₂ instances entries₂) :
    entries₁.map (fun p => (p.1, p.2.blank)) = entries₂.map fun p => (p.1, p.2.blank) := by
  induction h₁ generalizing entries₂ with
  | nil =>
    cases h₂
    rfl
  | cons he₁ _ ih =>
    cases h₂ with
    | cons he₂ hrest =>
      rw [List.map_cons, List.map_cons, ih hrest, he₁.1, he₂.1, blank_eq_of_entry he₁.2 he₂.2]

/-- All stores of the same definitions have the same blank store. -/
theorem blank_eq_of_build {definitions : List Definition} {capacity : Nat} {s₁ s₂ : Snapshot}
    {m₁ m₂ : MibStore} (h₁ : build definitions s₁ capacity = .ok m₁)
    (h₂ : build definitions s₂ capacity = .ok m₂) : m₁.blank = m₂.blank := by
  obtain ⟨hentries₁, hcapacity₁⟩ := build_eq_ok h₁
  obtain ⟨hentries₂, hcapacity₂⟩ := build_eq_ok h₂
  obtain ⟨entries₁, capacity₁⟩ := m₁
  obtain ⟨entries₂, capacity₂⟩ := m₂
  cases hcapacity₁
  cases hcapacity₂
  rw [blank, blank]
  dsimp only
  rw [hentries₁.blank_eq hentries₂]

end MibStore

end SnmpAgent
