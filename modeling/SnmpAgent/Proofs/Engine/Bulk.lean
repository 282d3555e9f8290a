import SnmpAgent.Proofs.Engine.Collecting

/-!
# Bulk requests

A bulk request follows up each name in a slot of its own, row by row. A slot
remembers when there is nothing further, and the capacity of the reply may end
a row midway. Neither is seen in the reply: a slot that has run out repeats
what a further search would answer, and the reply is the beginning of what
unlimited rows would be.

* `Engine.successor`: the answer of a second-version request for the variable
  after a name;
* `Engine.rowsOf`: the rows that come of answering the names of the row before;
* `Engine.queries`: the names that these rows answer;
* `Engine.resolves_getBulk`: the reply of the agent, and the variables that it
  comes to on the way;
* `Engine.getBulk_eq_iterated_getNext`: a bulk reply is made of the replies to
  successive requests for the variables after some names.
-/

namespace SnmpAgent

namespace Engine

/-- The answer to a name in a second-version request for the variable after it. -/
def successor (m : MibStore) (s : Snapshot) (oid : Oid) : Binding :=
  (m.next? s oid).getD (Binding.marker oid .endOfMibView)

/-- So many rows, the first of which answers `oids`, and each other the names in
    the row before it. -/
def rowsOf (answer : List Oid → List Binding) : (repetitions : Nat) → List Oid → List Binding
  | 0, _ => []
  | repetitions + 1, oids =>
    answer oids ++ rowsOf answer repetitions ((answer oids).map (·.oid))

/-- Rows are as long as there are names. -/
theorem length_rowsOf {answer : List Oid → List Binding}
    (h : ∀ oids, (answer oids).length = oids.length) (repetitions : Nat) (oids : List Oid) :
    (rowsOf answer repetitions oids).length = oids.length * repetitions := by
  induction repetitions generalizing oids with
  | zero => rfl
  | succ repetitions ih =>
    rw [rowsOf, List.length_append, ih, List.length_map, h, Nat.mul_succ, Nat.add_comm]

/-- The name that a search for the variable after a name leads to. -/
def reached (m : MibStore) (oid : Oid) : Oid :=
  ((m.findNext? oid).bind fun i => (m.get? i).map (·.1)).getD oid

theorem oid_successor (m : MibStore) (s : Snapshot) (oid : Oid) :
    (successor m s oid).oid = reached m oid := by
  rw [successor, MibStore.next?, reached]
  cases m.findNext? oid with
  | none => rfl
  | some i =>
    rw [Option.bind_some, Option.bind_some, MibStore.bindingAt]
    cases m.get? i <;> rfl

/-- The names that so many rows answer: `oids` in the first row, and in each
    other row the names that those of the row before lead to. -/
def queries (lead : Oid → Oid) : (repetitions : Nat) → List Oid → List Oid
  | 0, _ => []
  | repetitions + 1, oids => oids ++ queries lead repetitions (oids.map lead)

/-- Rows are the answers to the names that they answer. -/
theorem rowsOf_map {f : Oid → Binding} {lead : Oid → Oid} (h : ∀ oid, (f oid).oid = lead oid)
    (repetitions : Nat) (oids : List Oid) :
    rowsOf (List.map f) repetitions oids = (queries lead repetitions oids).map f := by
  induction repetitions generalizing oids with
  | zero => rfl
  | succ repetitions ih =>
    have hlead : (oids.map f).map (·.oid) = oids.map lead := by
      rw [List.map_map]
      exact List.map_congr_left fun oid _ => h oid
    rw [rowsOf, queries, List.map_append, hlead, ih]

/-- Without names, rows are empty. -/
theorem queries_nil (lead : Oid → Oid) (repetitions : Nat) : queries lead repetitions [] = [] := by
  induction repetitions with
  | zero => rfl
  | succ repetitions ih => rw [queries, List.map_nil, ih, List.append_nil]

/-- A row cut to the room that is left, and the rows after it, are the first of
    all rows. -/
theorem take_queries (lead : Oid → Oid) (repetitions room : Nat) (oids : List Oid) :
    oids.take room ++ (queries lead repetitions ((oids.take room).map lead)).take
        (room - (oids.take room).length) =
      (oids ++ queries lead repetitions (oids.map lead)).take room := by
  rcases Nat.le_total room oids.length with hroom | hroom
  · -- The row fills the room, or falls short of it by being cut.
    rw [List.length_take_of_le hroom, Nat.sub_self, List.take_zero, List.append_nil,
      List.take_append_of_le_length hroom]
  · rw [List.take_of_length_le hroom, List.take_append, List.take_of_length_le hroom]

/-- What holds of the answer to each name holds of all rows, if each answer
    leads to such a name. -/
theorem forall_mem_rowsOf {f : Oid → Binding} {P : Oid → Prop} {Q : Binding → Prop}
    (hf : ∀ oid, P oid → Q (f oid) ∧ P (f oid).oid) (repetitions : Nat) {oids : List Oid}
    (h : ∀ oid ∈ oids, P oid) : ∀ b ∈ rowsOf (List.map f) repetitions oids, Q b := by
  induction repetitions generalizing oids with
  | zero => exact List.forall_mem_nil _
  | succ repetitions ih =>
    rw [rowsOf, List.forall_mem_append]
    constructor
    · intro b hb
      obtain ⟨oid, hoid, rfl⟩ := List.mem_map.1 hb
      exact (hf oid (h oid hoid)).1
    · refine ih fun reached hreached => ?_
      rw [List.map_map] at hreached
      obtain ⟨oid, hoid, rfl⟩ := List.mem_map.1 hreached
      exact (hf oid (h oid hoid)).2

/-! ## Slots -/

/-- The slot of a name that has just been answered. -/
def slotAfter (m : MibStore) (s : Snapshot) (oid : Oid) : Slot :=
  ⟨(successor m s oid).oid, (m.next? s oid).isNone⟩

/-- Where a slot has run out, there is nothing further. -/
def Consistent (m : MibStore) (s : Snapshot) (slot : Slot) : Prop :=
  slot.exhausted → m.next? s slot.oid = none

theorem consistent_slotAfter (m : MibStore) (s : Snapshot) (oid : Oid) :
    Consistent m s (slotAfter m s oid) := by
  intro h
  have hnone : m.next? s oid = none := Option.isNone_iff_eq_none.1 h
  rw [slotAfter, successor, hnone]
  exact hnone

variable {source : Nat → Snapshot} {m : MibStore} {s : Snapshot}

/-- A slot is answered as a request for the variable after its name is. -/
theorem resolves_advance (slot : Slot) (h : Consistent m s slot) :
    Resolves source m s (advance source slot) (successor m s slot.oid, slotAfter m s slot.oid)
      (m.findNext? slot.oid).toList := by
  obtain ⟨oid, exhausted⟩ := slot
  unfold advance
  cases exhausted with
  | true =>
    -- No search is made, and none would find anything.
    have hnone : m.next? s oid = none := h rfl
    have hfind : m.findNext? oid = none := by
      rw [← Option.isNone_iff_eq_none, ← Option.not_isSome, ← m.isSome_next? s, hnone]
      rfl
    rw [slotAfter, successor, hnone, hfind]
    exact resolves_pure _
  | false =>
    rw [← List.append_nil (Option.toList _)]
    refine (Lookup.resolves_next oid).bind ?_
    rw [slotAfter, successor]
    cases m.next? s oid with
    | none => exact resolves_pure _
    | some b => exact resolves_pure _

/-- The slots of a row are answered one by one, and lead to the names in the
    answers. -/
theorem resolves_row (source : Nat → Snapshot) {slots : List Slot}
    (h : ∀ slot ∈ slots, Consistent m s slot) :
    ∃ row : List (Binding × Slot), Resolves source m s (slots.mapM (advance source)) row
        ((slots.map (·.oid)).filterMap m.findNext?) ∧
      row.map (·.1) = (slots.map (·.oid)).map (successor m s) ∧
      (row.map (·.2)).map (·.oid) = (slots.map (·.oid)).map (reached m) ∧
      ∀ slot ∈ row.map (·.2), Consistent m s slot := by
  have hadvance : ∀ slot ∈ slots, Resolves source m s (advance source slot)
      (successor m s slot.oid, slotAfter m s slot.oid) (m.findNext? slot.oid).toList :=
    fun slot hslot => resolves_advance slot (h slot hslot)
  refine ⟨slots.map fun slot : Slot => (successor m s slot.oid, slotAfter m s slot.oid),
    ?_, ?_, ?_, ?_⟩
  · rw [List.filterMap_map, List.filterMap_eq_flatMap_toList]
    exact resolves_mapM hadvance
  · simp only [List.map_map]
    rfl
  · simp only [List.map_map]
    exact List.map_congr_left fun slot _ => oid_successor m s slot.oid
  · rw [List.map_map]
    intro slot hslot
    obtain ⟨slot, -, rfl⟩ := List.mem_map.1 hslot
    exact consistent_slotAfter m s slot.oid

/-- Rows are answered as far as there is room. -/
theorem resolves_rows (source : Nat → Snapshot) (repetitions room : Nat) {slots : List Slot}
    (h : ∀ slot ∈ slots, Consistent m s slot) :
    Resolves source m s (rows source repetitions room slots)
      (((queries (reached m) repetitions (slots.map (·.oid))).take room).map (successor m s))
      (((queries (reached m) repetitions (slots.map (·.oid))).take room).filterMap
        m.findNext?) := by
  induction repetitions generalizing room slots with
  | zero =>
    rw [rows, queries, List.take_nil]
    exact resolves_pure _
  | succ repetitions ih =>
    rw [rows, queries]
    by_cases hstop : slots.isEmpty ∨ room = 0
    · rw [if_pos hstop]
      rcases hstop with hnone | rfl
      · rw [List.isEmpty_iff.1 hnone, List.map_nil, List.map_nil, queries_nil, List.append_nil,
          List.take_nil]
        exact resolves_pure _
      · exact resolves_pure _
    · rw [if_neg hstop]
      have hcut : ∀ slot ∈ slots.take room, Consistent m s slot := fun slot hslot =>
        h slot (List.mem_of_mem_take hslot)
      obtain ⟨row, hrow, hbindings, hnames, hslots⟩ := resolves_row source hcut
      -- The row takes up as much room as it has names, which lead to those of the rows after it.
      have hlength : row.length = ((slots.map (·.oid)).take room).length := by
        simpa using congrArg List.length hbindings
      rw [List.map_take] at hrow hbindings hnames
      rw [← take_queries, List.map_append, List.filterMap_append, ← hbindings, ← hnames, ← hlength]
      exact hrow.bind ((ih _ hslots).map (row.map (·.1) ++ ·))

/-- The names that a bulk request is answered for. -/
def bulkNames (m : MibStore) (p : Pdu) : List Oid :=
  ((names p).take p.nonRepeaters ++
    queries (reached m) p.maxRepetitions ((names p).drop p.nonRepeaters)).take maxValues

/-- The answers to the names of a bulk request are single answers and rows. -/
theorem map_bulkNames (m : MibStore) (s : Snapshot) (p : Pdu) :
    (bulkNames m p).map (successor m s) = (((names p).take p.nonRepeaters).map (successor m s) ++
      rowsOf (List.map (successor m s)) p.maxRepetitions
        ((names p).drop p.nonRepeaters)).take maxValues := by
  rw [bulkNames, List.map_take, List.map_append, rowsOf_map (oid_successor m s)]

/-- The reply to a bulk request is the beginning of the single answers and the
    rows. -/
theorem resolves_getBulk (p : Pdu) : Resolves source m s (getBulk source p)
    (Response.success p.requestId ((((names p).take p.nonRepeaters).map (successor m s) ++
      rowsOf (List.map (successor m s)) p.maxRepetitions
        ((names p).drop p.nonRepeaters)).take maxValues))
    ((bulkNames m p).filterMap m.findNext?) := by
  have hfresh : ∀ slot ∈ (names p).map (Slot.mk · false), Consistent m s slot := by
    intro slot hslot
    obtain ⟨oid, -, rfl⟩ := List.mem_map.1 hslot
    intro h
    cases h
  have hnames : ((names p).map (Slot.mk · false)).map (·.oid) = names p := by
    rw [List.map_map]
    exact List.map_id _
  have hfirst : ∀ slot ∈ (((names p).map (Slot.mk · false)).take p.nonRepeaters).take maxValues,
      Consistent m s slot := fun slot hslot =>
    hfresh slot (List.mem_of_mem_take (List.mem_of_mem_take hslot))
  have hlast : ∀ slot ∈ ((names p).map (Slot.mk · false)).drop p.nonRepeaters,
      Consistent m s slot := fun slot hslot => hfresh slot (List.mem_of_mem_drop hslot)
  obtain ⟨single, hsingle, hbindings, -, -⟩ := resolves_row source hfirst
  have hsingleNames : ((((names p).map (Slot.mk · false)).take p.nonRepeaters).take maxValues).map
      (·.oid) = ((names p).take p.nonRepeaters).take maxValues := by
    rw [List.map_take, List.map_take, hnames]
  rw [hsingleNames] at hsingle hbindings
  have hrest := resolves_rows source p.maxRepetitions (maxValues - single.length) hlast
  rw [List.map_drop, hnames] at hrest
  -- The rows have the room that the single answers leave.
  have hroom : maxValues - single.length =
      maxValues - ((names p).take p.nonRepeaters).length := by
    rw [← List.length_map (·.1), hbindings, List.length_map, List.length_take]
    omega
  rw [← map_bulkNames, bulkNames, List.take_append, List.map_append, List.filterMap_append,
    ← hbindings, ← hroom]
  exact hsingle.bind (hrest.map fun repeated =>
    Response.success p.requestId (single.map (·.1) ++ repeated))

theorem gives_getBulk (p : Pdu) : Gives source m s (getBulk source p)
    (Response.success p.requestId ((((names p).take p.nonRepeaters).map (successor m s) ++
      rowsOf (List.map (successor m s)) p.maxRepetitions
        ((names p).drop p.nonRepeaters)).take maxValues)) :=
  (resolves_getBulk p).gives

/-! ## Successive requests -/

/-- What a second-version request for the variables after some names is answered
    with, by a host whose figures are `s`. -/
def nextAnswers (store : MibStore) (s : Snapshot) (oids : List Oid) : List Binding :=
  match getNext (fun _ => s) ⟨.getNextRequest, 0, 0, 0, oids.map (⟨·, .null⟩)⟩ .v2c
    (Lookup.start store) with
  | .ok reply _ => reply.bindings
  | .error .. => []

/-- A second-version request for the variables after some names succeeds with
    the answers to these names, whatever else it says. -/
theorem getNext_eq_ok (store : MibStore) (s : Snapshot) (p : Pdu) : ∃ l : Lookup,
    getNext (fun _ => s) p .v2c (Lookup.start store) =
      .ok (Response.success p.requestId ((names p).map (successor store.blank s))) l := by
  obtain ⟨l, hl, -⟩ := resolves_getNext p .v2c _ (Lookup.keeps_start (fun _ => s) store)
  rw [missing, answers_some] at hl
  exact ⟨l, hl⟩

theorem nextAnswers_eq (store : MibStore) (s : Snapshot) :
    nextAnswers store s = List.map (successor store.blank s) := by
  funext oids
  obtain ⟨l, hl⟩ := getNext_eq_ok store s ⟨.getNextRequest, 0, 0, 0, oids.map (⟨·, .null⟩)⟩
  rw [nextAnswers, hl]
  simp only [Response.success, names, List.map_map]
  rfl

/-- A bulk reply is made of the replies to successive requests for the variables
    after some names: one request for the names that are not repeated, one for
    the others, and one for the names in each reply but the last. Of all these
    answers it has the first, up to its capacity. -/
theorem getBulk_eq_iterated_getNext (store : MibStore) (s : Snapshot) (p : Pdu) :
    let n := p.varbinds.length
    let r := min (max p.errorStatus.toInt 0).toNat n
    let m := (max p.errorIndex.toInt 0).toNat
    let answer := nextAnswers store s
    (∀ q : Pdu, ∃ l : Lookup, getNext (fun _ => s) q .v2c (Lookup.start store) =
      .ok (Response.success q.requestId (answer (names q))) l) ∧
    ∃ (bindings : List Binding) (l : Lookup), getBulk (fun _ => s) p (Lookup.start store) =
        .ok (Response.success p.requestId bindings) l ∧
      bindings = (answer ((names p).take r) ++
        rowsOf answer m ((names p).drop r)).take maxValues ∧
      bindings.length = min maxValues (r + (n - r) * m) := by
  intro n r m answer
  have hn : (names p).length = n := List.length_map _
  have hanswer : answer = List.map (successor store.blank s) := nextAnswers_eq store s
  have hlength : ∀ oids, (answer oids).length = oids.length := by
    intro oids
    rw [hanswer, List.length_map]
  -- Numbers below zero stand for zero, and more than all names for all of them.
  have hm : p.maxRepetitions = m := by
    rw [Pdu.maxRepetitions]
    omega
  have hr : r = min p.nonRepeaters n := by
    rw [Pdu.nonRepeaters]
    omega
  have htake : (names p).take p.nonRepeaters = (names p).take r := by
    rw [hr, List.take_eq_take_min, hn]
  have hdrop : (names p).drop p.nonRepeaters = (names p).drop r := by
    rcases Nat.le_total p.nonRepeaters n with hle | hle
    · rw [hr, Nat.min_eq_left hle]
    · rw [hr, Nat.min_eq_right hle, List.drop_eq_nil_of_le (hn ▸ hle), ← hn, List.drop_length]
  obtain ⟨l, hl, -⟩ := gives_getBulk p _ (Lookup.keeps_start (fun _ => s) store)
  rw [← hanswer, hm, htake, hdrop] at hl
  refine ⟨fun q => hanswer ▸ getNext_eq_ok store s q, _, l, hl, by rw [hanswer], ?_⟩
  have hsingle : ((names p).take r).length = r :=
    List.length_take_of_le (hn ▸ hr ▸ Nat.min_le_right _ _)
  rw [List.length_take, List.length_append, length_rowsOf hlength, List.length_drop, hlength,
    hsingle, hn]

end Engine

end SnmpAgent
