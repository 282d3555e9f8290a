import SnmpAgent.Proofs.Mib.Searches

/-!
# Defects of definitions

A store is built instance by instance, and the first one that is at fault
refuses the whole. An instance may be at fault in several ways at once; the
first way in a fixed order is the one that is reported.

* `MibStore.Defect`: the ways to be at fault, in that order;
* `MibStore.defect?`: what is wrong with an instance that follows others;
* `MibStore.exists_enter_eq_ok`, `MibStore.enter_eq_error`: what becomes of it;
* `MibStore.Sound`, `MibStore.sound_iff`: instances of which none is at fault;
* `MibStore.build_exact`: which definitions have a store, what it holds, and
  which error refuses the others.
-/

namespace SnmpAgent.MibStore

/-- The ways in which an instance may be at fault: its name has too many
    sub-identifiers, no variable can have its tag, its value has another one or
    is too long to be written, there are already as many instances as the store
    may hold, or its name is not above that of the instance before it. -/
inductive Defect where
  | arity
  | unsupported
  | mismatch
  | encoding
  | overflow
  | order
  deriving DecidableEq

namespace Defect

/-- All defects, in the order in which they are reported. -/
def all : List Defect := [arity, unsupported, mismatch, encoding, overflow, order]

/-- Whether an instance that follows some others is at fault in a given way. -/
def Occurs (s : Snapshot) (capacity : Nat) (before : List (Tag × Oid × Cell))
    (i : Tag × Oid × Cell) : Defect → Prop
  | arity => Oid.maxSubids < i.2.1.length
  | unsupported => ¬isStorable i.1
  | mismatch => (i.2.2.value s).tag ≠ i.1
  | encoding => Length.max < (i.2.2.value s).content.length
  | overflow => capacity ≤ before.length
  | order => ∃ last ∈ before.getLast?, i.2.1 ≤ last.2.1

instance (s : Snapshot) (capacity : Nat) (before : List (Tag × Oid × Cell))
    (i : Tag × Oid × Cell) : (d : Defect) → Decidable (d.Occurs s capacity before i)
  | arity => inferInstanceAs (Decidable (_ < _))
  | unsupported => inferInstanceAs (Decidable (¬_))
  | mismatch => inferInstanceAs (Decidable (_ ≠ _))
  | encoding => inferInstanceAs (Decidable (_ < _))
  | overflow => inferInstanceAs (Decidable (_ ≤ _))
  | order => inferInstanceAs (Decidable (∃ last ∈ before.getLast?, i.2.1 ≤ last.2.1))

/-- The error that reports a defect of an instance. -/
def error (s : Snapshot) (capacity : Nat) (i : Tag × Oid × Cell) : Defect → AgentError
  | arity => .mib (.oidOverflow i.2.1.length Oid.maxSubids) i.2.1
  | unsupported => .mib (.unsupportedType i.1) i.2.1
  | mismatch => .mib (.typeMismatch i.1 (i.2.2.value s).tag) i.2.1
  | encoding => .encode (.lengthTooLarge (i.2.2.value s).content.length)
  | overflow => .mib (.tableOverflow capacity) i.2.1
  | order => .mib .outOfOrder i.2.1

end Defect

/-- What is wrong with an instance that follows some others: its first defect. -/
def defect? (s : Snapshot) (capacity : Nat) (before : List (Tag × Oid × Cell))
    (i : Tag × Oid × Cell) : Option Defect :=
  Defect.all.find? (·.Occurs s capacity before i)

variable {s : Snapshot} {capacity : Nat} {before after is : List (Tag × Oid × Cell)}
  {i : Tag × Oid × Cell} {d : Defect} {table : OidTable Entry}

/-! ## One instance -/

theorem defect?_eq_none_iff : defect? s capacity before i = none ↔
    ∀ d, ¬Defect.Occurs s capacity before i d := by
  rw [defect?, List.find?_eq_none]
  constructor
  · intro h d
    have hmem : d ∈ Defect.all := by cases d <;> decide
    simpa using h d hmem
  · intro h d _
    simpa using h d

/-- The defect of an instance occurs, and those before it in the order do not. -/
theorem defect?_eq_some (h : defect? s capacity before i = some d) :
    d.Occurs s capacity before i ∧
      ∀ d' ∈ Defect.all.takeWhile (· ≠ d), ¬d'.Occurs s capacity before i := by
  obtain ⟨hd, earlier, later, hall, hearlier⟩ := List.find?_eq_some_iff_append.1 h
  have hd : d.Occurs s capacity before i := of_decide_eq_true hd
  have hearlier : ∀ d' ∈ earlier, ¬d'.Occurs s capacity before i := by simpa using hearlier
  have hne : ∀ d' ∈ earlier, d' ≠ d := by
    rintro d' hd' rfl
    exact hearlier d' hd' hd
  have htake : Defect.all.takeWhile (· ≠ d) = earlier := by
    rw [hall, List.takeWhile_append_of_pos (by simpa using hne),
      List.takeWhile_cons_of_neg (by simp), List.append_nil]
  rw [htake]
  exact ⟨hd, hearlier⟩

/-- A name is not above that of the last entry exactly if it is not above that
    of the last instance. -/
theorem MadeOf.exists_last_iff {entries : List (Oid × Entry)} (h : MadeOf s before entries)
    (oid : Oid) : (∃ last, entries.getLast? = some last ∧ oid ≤ last.1) ↔
      ∃ last ∈ before.getLast?, oid ≤ last.2.1 := by
  have hnames {α : Type} (l : List α) (name : α → Oid) :
      (∃ last, l.getLast? = some last ∧ oid ≤ name last) ↔
        ∃ last, (l.map name).getLast? = some last ∧ oid ≤ last := by
    simp
  rw [hnames entries (·.1), h.names_eq]
  exact (hnames before (·.2.1)).symm

/-- An instance has an entry unless something is wrong with its name, its tag or
    its value. -/
theorem exists_entry (h : ∀ d ∈ [Defect.arity, .unsupported, .mismatch, .encoding],
    ¬d.Occurs s capacity before i) : ∃ e, entry i.1 s i.2.1 i.2.2 = .ok e := by
  have harity : i.2.1.length ≤ Oid.maxSubids := Nat.le_of_not_lt (h .arity (by decide))
  have hstorable : isStorable i.1 := Decidable.not_not.1 (h .unsupported (by decide))
  have htag : (i.2.2.value s).tag = i.1 := Decidable.not_not.1 (h .mismatch (by decide))
  obtain ⟨octets, htlv⟩ := Value.exists_tlv_iff.2 (Nat.le_of_not_lt (h .encoding (by decide)))
  exact ⟨⟨i.1, octets, i.2.2.metric?⟩, entry_eq_ok.2 ⟨harity, hstorable, htag, htlv, rfl, rfl⟩⟩

/-- What has an entry is refused for what the table says. -/
theorem enter_of_push_eq_error {e : Entry} {fault : MibFault}
    (hentry : entry i.1 s i.2.1 i.2.2 = .ok e) (hpush : table.push i.2.1 e = .error fault) :
    enter s table i.1 i.2.1 i.2.2 = .error (.mib fault i.2.1) := by
  rw [enter_eq, hentry]
  exact congrArg (Except.mapError (AgentError.mib · i.2.1)) hpush

/-- Behind instances that have been entered, an instance without a defect is
    entered, too. -/
theorem exists_enter_eq_ok (hmade : MadeOf s before table.entries)
    (hcapacity : table.capacity = capacity) (h : defect? s capacity before i = none) :
    ∃ table', enter s table i.1 i.2.1 i.2.2 = .ok table' := by
  have hnone := defect?_eq_none_iff.1 h
  obtain ⟨e, hentry⟩ := exists_entry fun d _ => hnone d
  cases hpush : table.push i.2.1 e with
  | ok table' => exact ⟨table', enter_eq_ok.2 ⟨e, hentry, hpush⟩⟩
  | error fault =>
    rcases OidTable.push_eq_error_iff.1 hpush with ⟨hfull, -⟩ | ⟨-, hlast, -⟩
    · refine absurd ?_ (hnone .overflow)
      rw [Defect.Occurs, ← hcapacity, ← hfull]
      exact hmade.length_eq.ge
    · exact absurd ((hmade.exists_last_iff i.2.1).1 hlast) (hnone .order)

/-- Behind instances that have been entered, an instance with a defect is
    refused for the first one. -/
theorem enter_eq_error (hmade : MadeOf s before table.entries)
    (hcapacity : table.capacity = capacity) (hroom : before.length ≤ capacity)
    (h : defect? s capacity before i = some d) :
    enter s table i.1 i.2.1 i.2.2 = .error (d.error s capacity i) := by
  obtain ⟨hd, hearlier⟩ := defect?_eq_some h
  have hlength : table.length = before.length := hmade.length_eq.symm
  -- The checks before that of the defect are passed.
  cases d with
  | arity =>
    have hlong : Oid.maxSubids < i.2.1.length := hd
    rw [enter, entry, if_pos hlong]
    rfl
  | unsupported =>
    have harity : ¬Oid.maxSubids < i.2.1.length := hearlier .arity (by decide)
    have hstorable : ¬isStorable i.1 := hd
    rw [enter, entry, if_neg harity, if_pos hstorable]
    rfl
  | mismatch =>
    have harity : ¬Oid.maxSubids < i.2.1.length := hearlier .arity (by decide)
    have hstorable : ¬¬isStorable i.1 := hearlier .unsupported (by decide)
    have htag : (i.2.2.value s).tag ≠ i.1 := hd
    rw [enter, entry, if_neg harity, if_neg hstorable]
    dsimp only
    rw [if_pos htag]
    rfl
  | encoding =>
    have harity : ¬Oid.maxSubids < i.2.1.length := hearlier .arity (by decide)
    have hstorable : ¬¬isStorable i.1 := hearlier .unsupported (by decide)
    have htag : ¬(i.2.2.value s).tag ≠ i.1 := hearlier .mismatch (by decide)
    rw [enter, entry, if_neg harity, if_neg hstorable]
    dsimp only
    rw [if_neg htag, Value.tlv_eq_error hd]
    rfl
  | overflow =>
    -- There is an entry, and it is the table that refuses it.
    obtain ⟨e, hentry⟩ := exists_entry fun d hd => hearlier d hd
    have hfull : table.length = table.capacity := by
      rw [hlength, hcapacity]
      exact Nat.le_antisymm hroom hd
    have hpush : table.push i.2.1 e = .error (.tableOverflow table.capacity) :=
      OidTable.push_eq_error_iff.2 (.inl ⟨hfull, rfl⟩)
    rw [enter_of_push_eq_error hentry hpush, hcapacity]
    rfl
  | order =>
    obtain ⟨e, hentry⟩ := exists_entry fun d hd =>
      hearlier d (List.mem_append_left [Defect.overflow] hd)
    have hfree : table.length ≠ table.capacity := by
      rw [hlength, hcapacity]
      exact (Nat.lt_of_not_le (hearlier .overflow (by decide))).ne
    have hpush : table.push i.2.1 e = .error .outOfOrder :=
      OidTable.push_eq_error_iff.2 (.inr ⟨hfree, (hmade.exists_last_iff i.2.1).2 hd, rfl⟩)
    exact enter_of_push_eq_error hentry hpush

/-! ## All instances -/

/-- None of some instances is at fault behind those before it. -/
def Sound (s : Snapshot) (capacity : Nat) (is : List (Tag × Oid × Cell)) : Prop :=
  ∀ before i after, is = before ++ i :: after → defect? s capacity before i = none

theorem sound_nil : Sound s capacity [] := by
  intro before i after h
  cases before <;> cases h

theorem sound_concat : Sound s capacity (is ++ [i]) ↔
    Sound s capacity is ∧ defect? s capacity is i = none := by
  constructor
  · intro h
    refine ⟨fun before j after his => ?_, h is i [] rfl⟩
    refine h before j (after ++ [i]) ?_
    rw [his, List.append_assoc, List.cons_append]
  · rintro ⟨his, hi⟩ before j after h
    -- Either `j` is the last instance, or it stands among those before.
    rcases List.eq_nil_or_concat' after with rfl | ⟨after, k, rfl⟩
    · obtain ⟨rfl, hj⟩ := List.append_inj' h rfl
      cases hj
      exact hi
    · rw [← List.cons_append, ← List.append_assoc] at h
      exact his before j after (List.append_inj' h rfl).1

/-- An instance can be entered: the name is not too long, variables can have the
    declared tag, and the value has that tag and can be written. -/
structure Enterable (s : Snapshot) (i : Tag × Oid × Cell) : Prop where
  arity : i.2.1.length ≤ Oid.maxSubids
  supported : isStorable i.1
  tag : (i.2.2.value s).tag = i.1
  /-- The content of the value is not too long for a length. -/
  fits : (i.2.2.value s).content.length ≤ Length.max

/-- Behind instances whose names ascend, an instance has no defect if it can be
    entered, there is room for it, and its name is above all others. -/
theorem defect?_eq_none_iff_of_pairwise (h : before.Pairwise fun j k => j.2.1 < k.2.1) :
    defect? s capacity before i = none ↔
      before.length < capacity ∧ (∀ j ∈ before, j.2.1 < i.2.1) ∧ Enterable s i := by
  rw [defect?_eq_none_iff, OidTable.forall_lt_iff h]
  constructor
  · intro hnone
    exact ⟨Nat.lt_of_not_le (hnone .overflow), hnone .order, {
      arity := Nat.le_of_not_lt (hnone .arity)
      supported := Decidable.not_not.1 (hnone .unsupported)
      tag := Decidable.not_not.1 (hnone .mismatch)
      fits := Nat.le_of_not_lt (hnone .encoding) }⟩
  · rintro ⟨hroom, horder, hi⟩ d
    cases d with
    | arity => exact Nat.not_lt.2 hi.arity
    | unsupported => exact not_not.2 hi.supported
    | mismatch => exact not_not.2 hi.tag
    | encoding => exact Nat.not_lt.2 hi.fits
    | overflow => exact Nat.not_le.2 hroom
    | order => exact horder

/-- Instances are sound exactly if there are not too many of them, their names
    ascend, and each can be entered. -/
theorem sound_iff : Sound s capacity is ↔ is.length ≤ capacity ∧
    is.Pairwise (fun i j => i.2.1 < j.2.1) ∧ ∀ i ∈ is, Enterable s i := by
  induction is using List.reverseRecOn with
  | nil => exact iff_of_true sound_nil ⟨Nat.zero_le _, .nil, List.forall_mem_nil _⟩
  | append_singleton is i ih =>
    rw [sound_concat, ih, List.length_append, List.length_singleton, List.pairwise_append,
      List.forall_mem_append, List.forall_mem_singleton]
    constructor
    · rintro ⟨⟨-, hpairwise, his⟩, hi⟩
      obtain ⟨hroom, habove, hi⟩ := (defect?_eq_none_iff_of_pairwise hpairwise).1 hi
      exact ⟨hroom, ⟨hpairwise, List.pairwise_singleton _ _,
        fun j hj k hk => List.mem_singleton.1 hk ▸ habove j hj⟩, his, hi⟩
    · rintro ⟨hroom, ⟨hpairwise, -, habove⟩, his, hi⟩
      exact ⟨⟨Nat.le_of_succ_le hroom, hpairwise, his⟩,
        (defect?_eq_none_iff_of_pairwise hpairwise).2
          ⟨hroom, fun j hj => habove j hj i (List.mem_singleton_self i), hi⟩⟩

/-- Some instances are sound, or there is a first one at fault. -/
theorem sound_or_exists_defect (s : Snapshot) (capacity : Nat) (is : List (Tag × Oid × Cell)) :
    Sound s capacity is ∨ ∃ before i after d, is = before ++ i :: after ∧
      Sound s capacity before ∧ defect? s capacity before i = some d := by
  induction is using List.reverseRecOn with
  | nil => exact .inl sound_nil
  | append_singleton is i ih =>
    rcases ih with his | ⟨before, j, after, d, rfl, hbefore, hd⟩
    · cases hi : defect? s capacity is i with
      | none => exact .inl (sound_concat.2 ⟨his, hi⟩)
      | some d => exact .inr ⟨is, i, [], d, rfl, his, hi⟩
    · refine .inr ⟨before, j, after ++ [i], d, ?_, hbefore, hd⟩
      rw [List.append_assoc, List.cons_append]

/-- Sound instances are all entered, one after another. -/
theorem Sound.exists_foldlM_enter (h : Sound s capacity is) : ∃ table, is.foldlM
    (fun table (tag, oid, cell) => enter s table tag oid cell) (OidTable.empty capacity) =
      .ok table := by
  induction is using List.reverseRecOn with
  | nil => exact ⟨_, rfl⟩
  | append_singleton is i ih =>
    obtain ⟨his, hi⟩ := sound_concat.1 h
    obtain ⟨table, htable⟩ := ih his
    obtain ⟨hmade, hcapacity⟩ := madeOf_of_foldlM_enter htable
    obtain ⟨table', henter⟩ := exists_enter_eq_ok hmade hcapacity hi
    refine ⟨table', ?_⟩
    rw [List.foldlM_append, htable]
    exact congrArg (· >>= pure) henter

/-- The first instance at fault refuses all. -/
theorem Sound.foldlM_enter_eq_error (h : Sound s capacity before)
    (hd : defect? s capacity before i = some d) (after : List (Tag × Oid × Cell)) :
    (before ++ i :: after).foldlM (fun table (tag, oid, cell) => enter s table tag oid cell)
      (OidTable.empty capacity) = .error (d.error s capacity i) := by
  obtain ⟨table, htable⟩ := h.exists_foldlM_enter
  obtain ⟨hmade, hcapacity⟩ := madeOf_of_foldlM_enter htable
  have henter := enter_eq_error hmade hcapacity (sound_iff.1 h).1 hd
  rw [List.foldlM_append, htable]
  change (enter s table i.1 i.2.1 i.2.2 >>= fun table => after.foldlM _ table) = _
  rw [henter]
  rfl

/-! ## Stores -/

/-- An entry holds an instance: it has its name, its tag, the octets of its
    value, and the metric of its cell, if there is one. -/
structure Holds (s : Snapshot) (i : Tag × Oid × Cell) (p : Oid × Entry) : Prop where
  name : p.1 = i.2.1
  tag : p.2.tag = i.1
  encoded : (i.2.2.value s).tlv = .ok p.2.encoded
  metric? : p.2.metric? = i.2.2.metric?

variable {definitions : List Definition} {m : MibStore}

/-- Definitions with sound instances have a store. -/
theorem Sound.exists_build (h : Sound s capacity (instances definitions)) :
    ∃ m, build definitions s capacity = .ok m := by
  obtain ⟨table, htable⟩ := h.exists_foldlM_enter
  refine ⟨⟨table⟩, ?_⟩
  rw [build, htable]
  rfl

/-- Definitions with an instance at fault are refused for the first one. -/
theorem build_eq_error (his : instances definitions = before ++ i :: after)
    (hbefore : Sound s capacity before) (hd : defect? s capacity before i = some d) :
    build definitions s capacity = .error (d.error s capacity i) := by
  rw [build, his, hbefore.foldlM_enter_eq_error hd after]
  rfl

/-- Only definitions with sound instances have a store. -/
theorem sound_of_build (h : build definitions s capacity = .ok m) :
    Sound s capacity (instances definitions) := by
  rcases sound_or_exists_defect s capacity (instances definitions) with
    hsound | ⟨before, i, after, d, his, hbefore, hd⟩
  · exact hsound
  · cases h.symm.trans (build_eq_error his hbefore hd)

/-- Definitions have a store exactly if their instances are not more than the
    store may hold, their names ascend, and each can be entered. The store then
    has one entry for each instance, in order. Else the first instance at fault
    is reported, by the first of its defects. -/
theorem build_exact (definitions : List Definition) (s : Snapshot) (capacity : Nat) :
    ((∃ m, build definitions s capacity = .ok m) ↔
      (instances definitions).length ≤ capacity ∧
      (instances definitions).Pairwise (fun i j => i.2.1 < j.2.1) ∧
      ∀ i ∈ instances definitions, Enterable s i) ∧
    (∀ m, build definitions s capacity = .ok m →
      List.Forall₂ (Holds s) (instances definitions) m.table.entries ∧
        m.table.capacity = capacity) ∧
    ∀ e, build definitions s capacity = .error e ↔ ∃ before i after d,
      instances definitions = before ++ i :: after ∧ Sound s capacity before ∧
        defect? s capacity before i = some d ∧ e = d.error s capacity i := by
  refine ⟨?_, fun m hm => ?_, fun e => ?_⟩
  · rw [← sound_iff]
    exact ⟨fun ⟨m, hm⟩ => sound_of_build hm, Sound.exists_build⟩
  · obtain ⟨hmade, hcapacity⟩ := build_eq_ok hm
    refine ⟨hmade.imp fun i p hentry => ?_, hcapacity⟩
    obtain ⟨-, -, -, htlv, htag, hmetric⟩ := entry_eq_ok.1 hentry.2
    exact ⟨hentry.1, htag, htlv, hmetric⟩
  · constructor
    · intro he
      -- Unless all instances are sound, one of them is the first at fault.
      rcases sound_or_exists_defect s capacity (instances definitions) with
        hsound | ⟨before, i, after, d, his, hbefore, hd⟩
      · obtain ⟨m, hm⟩ := hsound.exists_build
        cases hm.symm.trans he
      · cases he.symm.trans (build_eq_error his hbefore hd)
        exact ⟨before, i, after, d, his, hbefore, hd, rfl⟩
    · rintro ⟨before, i, after, d, his, hbefore, hd, rfl⟩
      exact build_eq_error his hbefore hd

/-- Text that is declared as a number is reported as such, even where there is
    no room for it. -/
example : build [.scalar ⟨[1, 3]⟩ 1 .integer (.fixed (.octetString []))] {} 0 =
    .error (.mib (.typeMismatch Tag.integer Tag.octetString) ⟨[1, 3, 1, 0]⟩) := rfl

end SnmpAgent.MibStore
