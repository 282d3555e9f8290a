import SnmpAgent.Proofs.Message.Operations

/-!
# Containers

A message is a container, and so is every part of it that an operation opens.
Any container that is open may be read next, in whatever order, and an
operation that fails keeps what it has taken. Whatever is done, the offsets in
a container stay offsets of the message: what is read is what stands there.

* `Container.Faithful`: a container is a part of the message, and the cursor in
  it stands where it says;
* `Container.next`, `Container.run`: an operation in one of the containers that
  are open, and one after another;
* `Container.run_faithful`: all containers of all runs are faithful, and so is
  all that is read or refused in them.
-/

namespace SnmpAgent

variable {d : List UInt8} {c : Cursor}

/-- A container that is being read. -/
structure Container where
  /-- The cursor with which it was opened, before all of its octets. -/
  opened : Cursor
  cursor : Cursor

namespace Container

/-- A container in which nothing has been read. -/
def ofCursor (c : Cursor) : Container := ⟨c, c⟩

/-- The offset at which a container begins. -/
def base (k : Container) : Nat := k.opened.offset

/-- The offset at which it ends. -/
def stop (k : Container) : Nat := k.opened.stop

/-- A container is faithful to a message if its octets are a part of the
    message, and its cursor stands where it says. -/
structure Faithful (d : List UInt8) (k : Container) : Prop where
  stop_le : k.stop ≤ d.length
  /-- Its octets are those of the message from its begin to its end. -/
  octets_eq : k.opened.rest = d.extract k.base k.stop
  base_le : k.base ≤ k.cursor.offset
  offset_le : k.cursor.offset ≤ k.stop
  remaining_eq : k.cursor.remaining = k.stop - k.cursor.offset
  rest_eq : k.cursor.rest = d.extract k.cursor.offset k.stop

variable {k : Container}

theorem faithful_ofCursor (hc : c.StandsIn d) : (ofCursor c).Faithful d where
  stop_le := hc.stop_le
  octets_eq := hc.rest_eq
  base_le := Nat.le_refl _
  offset_le := Nat.le_add_right _ _
  remaining_eq := (Nat.add_sub_cancel_left _ _).symm
  rest_eq := hc.rest_eq

/-- The end of the container is the one that the cursor knows. -/
theorem Faithful.cursor_stop (h : k.Faithful d) : k.cursor.stop = k.stop := by
  rw [Cursor.stop, h.remaining_eq, Nat.add_sub_cancel' h.offset_le]

theorem Faithful.standsIn (h : k.Faithful d) : k.cursor.StandsIn d where
  stop_le := h.cursor_stop.trans_le h.stop_le
  rest_eq := by rw [h.cursor_stop, h.rest_eq]

/-- A container stays faithful when its cursor moves forward. -/
theorem Faithful.leadsTo (h : k.Faithful d) (hc : k.cursor.LeadsTo c) :
    (⟨k.opened, c⟩ : Container).Faithful d := by
  obtain ⟨hoffset, hstop⟩ := hc.offset_le
  rw [h.cursor_stop] at hstop
  have hstands := hc.standsIn h.standsIn
  exact
    { stop_le := h.stop_le
      octets_eq := h.octets_eq
      base_le := h.base_le.trans hoffset
      offset_le := (Nat.le_add_right _ _).trans_eq hstop
      remaining_eq := (Nat.sub_eq_of_eq_add' hstop.symm).symm
      rest_eq := hstands.rest_eq.trans (by rw [hstop]; rfl) }

/-- Whatever is done in a faithful container, the cursor moves forward. What is
    read stands in the message, and what is refused is refused in the
    container. -/
theorem Faithful.reads (h : k.Faithful d) (op : Reader.Operation) :
    match op.reader k.cursor with
    | .ok a c => k.cursor.LeadsTo c ∧ op.Tells d k.stop k.cursor.offset c.offset a
    | .error e c => k.cursor.LeadsTo c ∧ k.base ≤ e.offset ∧ e.offset ≤ k.stop := by
  have hwithin : Within k.base k.stop op.reader := op.within_reader
  have hread := hwithin k.cursor h.base_le h.cursor_stop
  cases hc : op.reader k.cursor with
  | ok a c =>
    rw [hc] at hread
    rw [← h.cursor_stop]
    exact ⟨hread, Reader.Operation.tells_of_reader h.standsIn hc⟩
  | error e c =>
    rw [hc] at hread
    exact hread

/-! ## Runs -/

/-- An operation in one of the containers that are open. -/
structure Step where
  /-- Which one it is, in the order in which they were opened. -/
  index : Nat
  operation : Reader.Operation

/-- The containers after a step. What a failing operation has taken stays taken,
    and a container that is opened comes behind all others. -/
def next (ks : List Container) (s : Step) : List Container :=
  match ks[s.index]? with
  | none => ks
  | some k =>
    match s.operation.reader k.cursor with
    | .ok a c =>
      ks.set s.index ⟨k.opened, c⟩ ++ ((s.operation.opened? a).map ofCursor).toList
    | .error _ c => ks.set s.index ⟨k.opened, c⟩

/-- The containers after some steps in a message. -/
def run (d : List UInt8) (steps : List Step) : List Container :=
  steps.foldl next [ofCursor (Cursor.ofMessage d)]

variable {ks : List Container} {s : Step}

/-- A step moves one cursor forward and may open a container that is faithful. -/
theorem exists_next_eq (hk : ks[s.index]? = some k) (h : k.Faithful d) :
    ∃ c opened, next ks s = ks.set s.index ⟨k.opened, c⟩ ++ opened ∧ k.cursor.LeadsTo c ∧
      ∀ k' ∈ opened, k'.Faithful d := by
  have hreads := h.reads s.operation
  rw [next, hk]
  dsimp only
  cases hc : s.operation.reader k.cursor with
  | ok a c =>
    rw [hc] at hreads
    refine ⟨c, _, rfl, hreads.1, fun k' hk' => ?_⟩
    obtain ⟨container, hopened, rfl⟩ := Option.map_eq_some_iff.1 (Option.mem_toList.1 hk')
    exact faithful_ofCursor (Reader.Operation.standsIn_of_opened? h.standsIn hc hopened)
  | error e c =>
    rw [hc] at hreads
    exact ⟨c, [], (List.append_nil _).symm, hreads.1, List.forall_mem_nil _⟩

/-- A step leaves all containers faithful. -/
theorem faithful_next (h : ∀ k ∈ ks, k.Faithful d) (s : Step) : ∀ k ∈ next ks s, k.Faithful d := by
  cases hk : ks[s.index]? with
  | none => rwa [next, hk]
  | some k =>
    have hfaithful := h k (List.mem_of_getElem? hk)
    obtain ⟨c, opened, hnext, hc, hopened⟩ := exists_next_eq hk hfaithful
    rw [hnext]
    intro k' hk'
    rcases List.mem_append.1 hk' with hset | hnew
    · rcases List.mem_or_eq_of_mem_set hset with hold | rfl
      · exact h k' hold
      · exact hfaithful.leadsTo hc
    · exact hopened k' hnew

/-- A step keeps the place of a container, and the cursor in it does not move
    back. -/
theorem exists_getElem?_next (h : ∀ k ∈ ks, k.Faithful d) (s : Step) {i : Nat}
    (hi : ks[i]? = some k) :
    ∃ k', (next ks s)[i]? = some k' ∧ k'.opened = k.opened ∧ k.cursor.LeadsTo k'.cursor := by
  cases hk : ks[s.index]? with
  | none =>
    rw [next, hk]
    exact ⟨k, hi, rfl, Cursor.LeadsTo.refl _⟩
  | some k₀ =>
    obtain ⟨c, opened, hnext, hc, -⟩ := exists_next_eq hk (h k₀ (List.mem_of_getElem? hk))
    have hlt : i < ks.length := (List.getElem?_eq_some_iff.1 hi).1
    rw [hnext, List.getElem?_append_left (by rwa [List.length_set])]
    by_cases his : s.index = i
    · obtain rfl : k₀ = k := Option.some.inj (hk.symm.trans (his ▸ hi))
      rw [his, List.getElem?_set_self hlt]
      exact ⟨_, rfl, rfl, hc⟩
    · rw [List.getElem?_set_ne his]
      exact ⟨k, hi, rfl, Cursor.LeadsTo.refl _⟩

/-- All containers of a run are faithful. -/
theorem faithful_foldl (h : ∀ k ∈ ks, k.Faithful d) (steps : List Step) :
    ∀ k ∈ steps.foldl next ks, k.Faithful d := by
  induction steps generalizing ks with
  | nil => exact h
  | cons s steps ih => exact ih (faithful_next h s)

theorem exists_getElem?_foldl (h : ∀ k ∈ ks, k.Faithful d) (steps : List Step) {i : Nat}
    (hi : ks[i]? = some k) :
    ∃ k', (steps.foldl next ks)[i]? = some k' ∧ k'.opened = k.opened ∧
      k.cursor.LeadsTo k'.cursor := by
  induction steps generalizing ks k with
  | nil => exact ⟨k, hi, rfl, Cursor.LeadsTo.refl _⟩
  | cons s steps ih =>
    obtain ⟨k₁, hk₁, hopened₁, hleads₁⟩ := exists_getElem?_next h s hi
    obtain ⟨k₂, hk₂, hopened₂, hleads₂⟩ := ih (faithful_next h s) hk₁
    exact ⟨k₂, hk₂, hopened₂.trans hopened₁, hleads₁.trans hleads₂⟩

theorem faithful_run (d : List UInt8) (steps : List Step) : ∀ k ∈ run d steps, k.Faithful d :=
  faithful_foldl (List.forall_mem_singleton.2 (faithful_ofCursor (Cursor.standsIn_ofMessage d)))
    steps

/-- Whatever is done in a message and in the containers that are opened in it,
    all of them stay faithful to the message, and whatever may be done next in
    one of them moves its cursor forward inside it: what is read stands in the
    message, and what is refused is refused in the container. In the course of a
    run no offset gets smaller. A message is refused at one of its offsets, or
    right behind its last octet, and no length and no sub-identifier is read
    from more octets than there are. -/
theorem run_faithful (d : List UInt8) (steps : List Step) :
    (∀ k ∈ run d steps, k.Faithful d ∧ ∀ op : Reader.Operation,
      match op.reader k.cursor with
      | .ok a c => k.cursor.LeadsTo c ∧ op.Tells d k.stop k.cursor.offset c.offset a
      | .error e c => k.cursor.LeadsTo c ∧ k.base ≤ e.offset ∧ e.offset ≤ k.stop) ∧
    (∀ (more : List Step) (i : Nat) (k : Container), (run d steps)[i]? = some k →
      ∃ k', (run d (steps ++ more))[i]? = some k' ∧ k'.opened = k.opened ∧
        k.cursor.offset ≤ k'.cursor.offset) ∧
    (∀ max e, Message.decode d max = .error e → e.offset ≤ d.length) ∧
    (∀ data base n used, Length.decode data base = .ok (n, used) → used ≤ data.length) ∧
    ∀ data base subid used, Oid.decodeSubid base data = .ok (subid, used) →
      used ≤ data.length := by
  have hfaithful := faithful_run d steps
  refine ⟨fun k hk => ⟨hfaithful k hk, (hfaithful k hk).reads⟩, fun more i k hk => ?_, ?_, ?_, ?_⟩
  · obtain ⟨k', hk', hopened, hleads⟩ := exists_getElem?_foldl hfaithful more hk
    rw [run, List.foldl_append]
    exact ⟨k', hk', hopened, hleads.offset_le.1⟩
  · exact fun max e => Message.offset_of_decode
  · exact fun data base n used => Length.le_length_of_decode
  · intro data base subid used h
    obtain ⟨o, rest, -, rfl, rfl⟩ := Oid.decodeSubid_eq_ok_iff.1 h
    rw [List.length_append]
    exact Nat.le_add_right _ _

end Container

end SnmpAgent
