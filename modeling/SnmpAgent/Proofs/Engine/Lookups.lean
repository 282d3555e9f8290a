import SnmpAgent.Proofs.Mib.Refresh
import SnmpAgent.Engine.Lookup

/-!
# What lookups answer

A request is answered by lookups that refresh variables on the way. Two things
stay what they are all the while: the blank store, and the snapshot that the
request is answered from, or will be once a variable asks for it. These two
decide every answer, so a computation with lookups is described by the value
that it gives where both are known (`Gives`). They also decide which variables
it comes to, and whether it samples the host is told by these (`Resolves`).

* `Resolves.bind`, `resolves_mapM`: one computation after another;
* `resolves_exact`, `resolves_next`: the lookups of the agent come to the
  variables that `MibStore.locate?` and `MibStore.findNext?` find in the blank
  store;
* `gives_exact`, `gives_next`: they give what `MibStore.lookup?` and
  `MibStore.next?` read there.
-/

namespace SnmpAgent

namespace MibStore

/-- The variable of a name as of a snapshot, or the only one beneath it. -/
def lookup? (m : MibStore) (s : Snapshot) (oid : Oid) : Option Binding :=
  match m.findAtOrBelow? oid 0 with
  | none => none
  | some i =>
    if (m.get? i).any (·.1 = oid) then m.bindingAt s i
    else if (m.findAtOrBelow? oid (i + 1)).isSome then none
    else m.bindingAt s i

/-- The first variable above a name as of a snapshot. -/
def next? (m : MibStore) (s : Snapshot) (oid : Oid) : Option Binding :=
  (m.findNext? oid).bind (m.bindingAt s)

/-- The position of the variable of a name, or of the only one beneath it. -/
def locate? (m : MibStore) (oid : Oid) : Option Nat :=
  match m.findAtOrBelow? oid 0 with
  | none => none
  | some i =>
    if (m.get? i).any (·.1 = oid) then some i
    else if (m.findAtOrBelow? oid (i + 1)).isSome then none
    else some i

/-- There is a variable at a position, and it changes. -/
def Changes (m : MibStore) (i : Nat) : Prop := (m.get? i).any (·.2.metric?.isSome)

/-- What is looked up is the variable that is located. -/
theorem lookup?_eq_bind (m : MibStore) (s : Snapshot) (oid : Oid) :
    m.lookup? s oid = (m.locate? oid).bind (m.bindingAt s) := by
  rw [lookup?, locate?]
  cases m.findAtOrBelow? oid 0 with
  | none => rfl
  | some i =>
    dsimp only
    split_ifs <;> rfl

/-- There is a variable at every position that is located. -/
theorem isSome_get?_of_locate? {m : MibStore} {oid : Oid} {i : Nat} (h : m.locate? oid = some i) :
    (m.get? i).isSome := by
  rw [locate?] at h
  cases hfind : m.findAtOrBelow? oid 0 with
  | none =>
    rw [hfind] at h
    cases h
  | some j =>
    have hj : (m.get? j).isSome := by
      rw [findAtOrBelow?] at hfind
      split_ifs at hfind with hany
      cases hfind
      exact Option.isSome_of_any hany
    rw [hfind] at h
    dsimp only at h
    split_ifs at h
    all_goals
      cases h
      exact hj

theorem isSome_get?_of_findNext? {m : MibStore} {oid : Oid} {i : Nat}
    (h : m.findNext? oid = some i) : (m.get? i).isSome := by
  rw [findNext?] at h
  split_ifs at h with hlt
  cases h
  exact Option.isSome_iff_exists.2 ⟨_, List.getElem?_eq_getElem hlt⟩

/-- Something is looked up where a variable is located, and nowhere else. -/
theorem isSome_lookup? (m : MibStore) (s : Snapshot) (oid : Oid) :
    (m.lookup? s oid).isSome = (m.locate? oid).isSome := by
  rw [lookup?_eq_bind]
  cases h : m.locate? oid with
  | none => rfl
  | some i =>
    rw [Option.bind_some, bindingAt, Option.isSome_map]
    exact isSome_get?_of_locate? h

theorem isSome_next? (m : MibStore) (s : Snapshot) (oid : Oid) :
    (m.next? s oid).isSome = (m.findNext? oid).isSome := by
  rw [next?]
  cases h : m.findNext? oid with
  | none => rfl
  | some i =>
    rw [Option.bind_some, bindingAt, Option.isSome_map]
    exact isSome_get?_of_findNext? h

theorem lookup?_blank (m : MibStore) (s : Snapshot) (oid : Oid) :
    m.blank.lookup? s oid = m.lookup? s oid := by
  simp only [lookup?, findAtOrBelow?_blank, bindingAt_blank, any_get?_blank m _ (· = oid)]

theorem next?_blank (m : MibStore) (s : Snapshot) (oid : Oid) :
    m.blank.next? s oid = m.next? s oid := by
  have hbinding : m.blank.bindingAt s = m.bindingAt s := funext (m.bindingAt_blank s)
  rw [next?, findNext?_blank, hbinding, next?]

theorem changes_blank (m : MibStore) (i : Nat) : m.blank.Changes i ↔ m.Changes i := by
  have hmetric : ∀ e : Entry, e.blank.metric? = e.metric? := by
    rintro ⟨tag, encoded, metric?⟩
    cases metric? <;> rfl
  simp [Changes, get?_blank, Option.any_map, hmetric]

theorem locate?_blank (m : MibStore) (oid : Oid) : m.blank.locate? oid = m.locate? oid := by
  simp only [locate?, findAtOrBelow?_blank, any_get?_blank m _ (· = oid)]

end MibStore

/-- The snapshot that a request is answered from, or will be. -/
def Lookup.figures (source : Nat → Snapshot) (l : Lookup) : Snapshot :=
  l.snapshot?.getD (source l.samples)

/-- What stays while a request is answered: the blank store is `m`, and the
    snapshot is `s`. -/
structure Lookup.Keeps (source : Nat → Snapshot) (m : MibStore) (s : Snapshot) (l : Lookup) :
    Prop where
  store : l.store.blank = m
  figures : l.figures source = s

/-- A request begins with the first snapshot of the host yet to come. -/
theorem Lookup.keeps_start (source : Nat → Snapshot) (store : MibStore) :
    (Lookup.start store).Keeps source store.blank (source 0) :=
  ⟨rfl, rfl⟩

/-- Wherever the blank store is `m` and the snapshot `s`, the computation gives
    `a` and leaves both as they are. -/
def Gives {α : Type} (source : Nat → Snapshot) (m : MibStore) (s : Snapshot) (x : Answering α)
    (a : α) : Prop :=
  ∀ l : Lookup, l.Keeps source m s → ∃ l' : Lookup, x l = .ok a l' ∧ l'.Keeps source m s

/-- Wherever the blank store is `m` and the snapshot `s`, the computation gives
    `a` and leaves both as they are. Afterwards there is a snapshot if there was
    one before, or else if a variable at one of the positions `is` changes. -/
def Resolves {α : Type} (source : Nat → Snapshot) (m : MibStore) (s : Snapshot) (x : Answering α)
    (a : α) (is : List Nat) : Prop :=
  ∀ l : Lookup, l.Keeps source m s → ∃ l' : Lookup, x l = .ok a l' ∧ l'.Keeps source m s ∧
    (l'.snapshot?.isSome ↔ l.snapshot?.isSome ∨ ∃ i ∈ is, m.Changes i)

variable {source : Nat → Snapshot} {m : MibStore} {s : Snapshot} {α β : Type}
  {x : Answering α} {f : α → Answering β} {a : α} {b : β} {is js : List Nat}

theorem Resolves.gives (h : Resolves source m s x a is) : Gives source m s x a := by
  intro l hl
  obtain ⟨l', hx, hl', -⟩ := h l hl
  exact ⟨l', hx, hl'⟩

theorem resolves_pure (a : α) : Resolves source m s (pure a) a [] :=
  fun l hl => ⟨l, rfl, hl, by simp⟩

theorem Resolves.bind (hx : Resolves source m s x a is) (hf : Resolves source m s (f a) b js) :
    Resolves source m s (x >>= f) b (is ++ js) := by
  intro l hl
  obtain ⟨l', hx, hl', hsampled⟩ := hx l hl
  obtain ⟨l'', hf, hl'', hsampled'⟩ := hf l' hl'
  refine ⟨l'', (bind_of_ok hx).trans hf, hl'', ?_⟩
  simp only [hsampled', hsampled, or_assoc, List.mem_append, or_and_right, exists_or]

theorem Resolves.map (hx : Resolves source m s x a is) (g : α → β) :
    Resolves source m s (do return g (← x)) (g a) is := by
  rw [← List.append_nil is]
  exact hx.bind (resolves_pure (g a))

/-- A list of computations gives the list of what each of them gives, and comes
    to what each of them comes to. -/
theorem resolves_mapM {g : α → β} {positions : α → List Nat} {xs : List α}
    (h : ∀ x ∈ xs, Resolves source m s (f x) (g x) (positions x)) :
    Resolves source m s (xs.mapM f) (xs.map g) (xs.flatMap positions) := by
  induction xs with
  | nil => exact resolves_pure []
  | cons x xs ih =>
    rw [List.mapM_cons]
    refine (h x List.mem_cons_self).bind ?_
    exact (ih fun y hy => h y (List.mem_cons_of_mem x hy)).map (g x :: ·)

/-- A computation that begins by asking for the state gives what it gives in
    every state. -/
theorem resolves_get {f : Lookup → Answering β}
    (h : ∀ l : Lookup, l.Keeps source m s → Resolves source m s (f l) b is) :
    Resolves source m s (get >>= f) b is :=
  fun l hl => h l hl l hl

namespace Lookup

/-- The host is sampled where there is no snapshot yet; either way there is then
    the snapshot that was to come. -/
theorem sample_eq_ok (source : Nat → Snapshot) (l : Lookup) : ∃ l' : Lookup,
    sample source l = .ok (l.figures source) l' ∧ l'.store = l.store ∧
      l'.figures source = l.figures source ∧ l'.snapshot?.isSome := by
  rw [sample, get_bind, figures]
  cases h : l.snapshot? with
  | some s => exact ⟨l, rfl, rfl, by rw [figures, h], by rw [h]; rfl⟩
  | none => exact ⟨{ l with snapshot? := some (source l.samples), samples := l.samples + 1 }, rfl,
      rfl, rfl, rfl⟩

/-- A refresh writes the element of the variable as of the snapshot. -/
theorem refresh_eq_ok {i : Nat} {oid : Oid} {e : Entry} {l : Lookup} (s : Snapshot)
    (h : l.store.get? i = some (oid, e)) : ∃ store : MibStore,
      refresh i s l = .ok () { l with store } ∧ store.blank = l.store.blank ∧
        store.get? i = some (oid, e.asOf s) := by
  obtain ⟨store, hstore, hblank, hentry⟩ := l.store.refresh_blank i s
  refine ⟨store, ?_, hblank, hentry oid e h⟩
  rw [refresh, get_bind]
  simp only [hstore]
  rfl

/-- A variable is answered with as of the snapshot: if it changes, it has just
    been refreshed. -/
theorem resolves_binding (i : Nat) :
    Resolves source m s (binding source i) (m.bindingAt s i) [i] := by
  intro l hl
  obtain ⟨rfl, rfl⟩ := hl
  simp only [List.mem_singleton, exists_eq_left]
  rw [MibStore.bindingAt_blank, MibStore.changes_blank, MibStore.bindingAt, MibStore.Changes,
    binding, get_bind]
  cases h : l.store.get? i with
  | none =>
    refine ⟨l, ?_, ⟨rfl, rfl⟩, by simp⟩
    simp only [Option.any_none, Bool.false_eq_true, if_false]
    rw [get_bind, h]
    rfl
  | some p =>
    obtain ⟨oid, e⟩ := p
    cases hmetric : e.metric? with
    | none =>
      -- A value that does not change is answered with as it stands.
      refine ⟨l, ?_, ⟨rfl, rfl⟩, by simp [hmetric]⟩
      simp only [hmetric, Option.any_some, Option.isSome_none, Bool.false_eq_true, if_false]
      rw [get_bind, h]
      simp [pure_apply, Entry.octetsAt, hmetric]
    | some metric =>
      -- The host is sampled, the variable refreshed, and what it has become looked up again.
      obtain ⟨l', hsample, hstore, hfigures, hsampled⟩ := sample_eq_ok source l
      rw [← hstore] at h
      obtain ⟨store, hrefresh, hblank, hentry⟩ := refresh_eq_ok (l.figures source) h
      refine ⟨{ l' with store }, ?_, ⟨hblank.trans (congrArg _ hstore), hfigures⟩, ?_⟩
      · simp only [hmetric, Option.any_some, Option.isSome_some, if_true]
        rw [bind_of_ok hsample, bind_of_ok hrefresh, get_bind, hentry]
        rfl
      · simp only [hmetric, hsampled, Option.any_some, Option.isSome_some, or_true]

/-- The variable of a name, or the only one beneath it, is located as in the
    blank store. -/
theorem resolves_exact (oid : Oid) :
    Resolves source m s (exact source oid) (m.lookup? s oid) (m.locate? oid).toList := by
  refine resolves_get fun l hl => ?_
  obtain ⟨rfl, -⟩ := hl
  rw [MibStore.lookup?_eq_bind, MibStore.locate?_blank, MibStore.locate?]
  dsimp only
  cases l.store.findAtOrBelow? oid 0 with
  | none => exact resolves_pure none
  | some i =>
    dsimp only
    split_ifs
    · exact resolves_binding i
    · exact resolves_pure none
    · exact resolves_binding i

/-- The first variable above a name is found as in the blank store. -/
theorem resolves_next (oid : Oid) :
    Resolves source m s (next source oid) (m.next? s oid) (m.findNext? oid).toList := by
  refine resolves_get fun l hl => ?_
  obtain ⟨rfl, -⟩ := hl
  rw [MibStore.next?, MibStore.findNext?_blank]
  cases l.store.findNext? oid with
  | none => exact resolves_pure none
  | some i => exact resolves_binding i

theorem gives_exact (oid : Oid) : Gives source m s (exact source oid) (m.lookup? s oid) :=
  (resolves_exact oid).gives

theorem gives_next (oid : Oid) : Gives source m s (next source oid) (m.next? s oid) :=
  (resolves_next oid).gives

end Lookup

end SnmpAgent
