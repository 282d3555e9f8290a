import SnmpAgent.Proofs.Steps
import SnmpAgent.Ber.Writer
import Mathlib.Tactic.SplitIfs
import Mathlib.Order.Basic

/-!
# What writers write

Whether a writer has room is the only thing that it learns about the buffer.
So every writer of the agent has one *output*: octets that it puts in front of
any buffer with room for them, or nothing, if it fails in every buffer
(`Writes`). The limit of the buffer decides between success and failure, and
changes nothing else.

* `Writes.bind`, `writes_constructed`, `writes_inOrder`: the output of a
  compound writer, from the outputs of its parts;
* `Writes.run_eq_ok_iff`, `Writes.run_eq_bufferFull`: what a limit does to the
  run of a writer;
* `Element.octets?`: an element, unless its content is too long for a length.
-/

namespace SnmpAgent

namespace Buffer

/-- Whether `n` more octets have room. -/
def Fits (b : Buffer) (n : Nat) : Prop := ∀ room, b.remaining = some room → n ≤ room

/-- Octets put in front one after the other are put in front together. -/
theorem prepend_prepend (b : Buffer) (o₁ o₂ : List UInt8) :
    (b.prepend o₁).prepend o₂ = b.prepend (o₂ ++ o₁) := by
  simp [prepend, Nat.add_assoc]

/-- Nothing put in front changes nothing. -/
theorem prepend_nil (b : Buffer) : b.prepend [] = b := by
  simp [prepend]

/-- There is room for two portions if there is room for one and then for the
    other. -/
theorem fits_append {b : Buffer} {o₁ o₂ : List UInt8} :
    b.Fits (o₂ ++ o₁).length ↔ b.Fits o₁.length ∧ (b.prepend o₁).Fits o₂.length := by
  cases hl : b.limit with
  | none => simp [Fits, remaining, prepend, hl]
  | some l =>
    simp only [Fits, remaining, prepend, hl, Option.map_some, Option.some.injEq, forall_eq',
      List.length_append]
    omega

/-- No octets always have room. -/
theorem fits_zero (b : Buffer) : b.Fits 0 := fun _ _ => Nat.zero_le _

end Buffer

/-! ## Outputs -/

/-- The output of a writer: the octets that it puts in front of a buffer with
    room for them, or nothing where it fails in every buffer. -/
def Writes (w : Writer) : Option (List UInt8) → Prop
  | some o => ∀ b : Buffer, (b.Fits o.length → w b = .ok () (b.prepend o)) ∧
      (¬b.Fits o.length → ∃ needed room b', w b = .error (.bufferFull needed room) b')
  | none => ∀ b : Buffer, ∃ e b', w b = .error e b'

/-- Octets in front of others, where there are both. -/
def append? : Option (List UInt8) → Option (List UInt8) → Option (List UInt8)
  | some a, some b => some (a ++ b)
  | _, _ => none

/-- One portion of octets after another, where there are all. -/
def concat? (os : List (Option (List UInt8))) : Option (List UInt8) := os.foldr append? (some [])

/-- Portions stand together exactly if there are both. -/
theorem append?_eq_some {a b : Option (List UInt8)} {o : List UInt8} :
    append? a b = some o ↔ ∃ x y, a = some x ∧ b = some y ∧ o = x ++ y := by
  cases a <;> cases b <;> simp [append?, eq_comm]

theorem append?_none (a : Option (List UInt8)) : append? a none = none := by
  cases a <;> rfl

/-- Three portions stand together in one way only. -/
theorem append?_assoc (a b c : Option (List UInt8)) :
    append? (append? a b) c = append? a (append? b c) := by
  cases a <;> cases b <;> cases c <;> simp [append?]

namespace Writer

theorem writes_pure : Writes (pure ()) (some []) :=
  fun b => ⟨fun _ => by rw [Buffer.prepend_nil]; rfl, fun h => absurd b.fits_zero h⟩

theorem writes_throw (e : EncodeError) : Writes (throw e) none := fun b => ⟨e, b, rfl⟩

theorem writes_push (octets : List UInt8) : Writes (push octets) (some octets) := by
  intro b
  unfold push Buffer.Fits
  cases b.remaining with
  | none => exact ⟨fun _ => rfl, fun h => absurd (fun _ h => by cases h) h⟩
  | some room =>
    simp only [Option.some.injEq, forall_eq']
    refine ⟨fun h => if_pos h, fun h => ?_⟩
    exact ⟨octets.length, room, b, if_neg h⟩

end Writer

namespace Writes

variable {w w₁ w₂ : Writer} {o? o₁? o₂? : Option (List UInt8)}

/-- The output of a sequence: what is written later stands in front. -/
theorem bind (h₁ : Writes w₁ o₁?) (h₂ : Writes w₂ o₂?) :
    Writes (do w₁; w₂) (append? o₂? o₁?) := by
  cases o₁? with
  | none =>
    -- The first part fails in every buffer, and nothing is written after it.
    have hfail : Writes (do w₁; w₂) none := fun b => by
      obtain ⟨e, b', h⟩ := h₁ b
      exact ⟨e, b', bind_of_error h⟩
    cases o₂? <;> exact hfail
  | some o₁ =>
    cases o₂? with
    | none =>
      intro b
      by_cases hb : b.Fits o₁.length
      · obtain ⟨e, b', h⟩ := h₂ (b.prepend o₁)
        exact ⟨e, b', (bind_of_ok ((h₁ b).1 hb)).trans h⟩
      · obtain ⟨n, room, b', h⟩ := (h₁ b).2 hb
        exact ⟨_, b', bind_of_error h⟩
    | some o₂ =>
      intro b
      rw [Buffer.fits_append]
      constructor
      · rintro ⟨hb₁, hb₂⟩
        rw [bind_of_ok ((h₁ b).1 hb₁), (h₂ _).1 hb₂, Buffer.prepend_prepend]
      · intro hb
        by_cases hb₁ : b.Fits o₁.length
        · obtain ⟨n, room, b', h⟩ := (h₂ (b.prepend o₁)).2 fun hb₂ => hb ⟨hb₁, hb₂⟩
          exact ⟨n, room, b', (bind_of_ok ((h₁ b).1 hb₁)).trans h⟩
        · obtain ⟨n, room, b', h⟩ := (h₁ b).2 hb₁
          exact ⟨n, room, b', bind_of_error h⟩

/-! ### Runs in an empty buffer -/

/-- A run within a limit ends well exactly if there is an output that the limit
    admits. -/
theorem run_eq_ok_iff (h : Writes w o?) {limit : Option Nat} {o : List UInt8} :
    w.run limit = .ok o ↔ o? = some o ∧ ∀ l, limit = some l → o.length ≤ l := by
  -- An empty buffer has room for what the limit admits.
  have hempty : ∀ n, (Buffer.empty limit).Fits n ↔ ∀ l, limit = some l → n ≤ l := by
    intro n
    cases limit <;> simp [Buffer.Fits, Buffer.remaining, Buffer.empty]
  cases o? with
  | none =>
    obtain ⟨e, b', hw⟩ := h (Buffer.empty limit)
    simp [Writer.run, hw]
  | some o₀ =>
    by_cases hb : (Buffer.empty limit).Fits o₀.length
    · rw [Writer.run, (h _).1 hb]
      rw [hempty] at hb
      simp only [Buffer.prepend, Buffer.empty, List.append_nil, Except.ok.injEq,
        Option.some.injEq]
      exact ⟨fun e => ⟨e, e ▸ hb⟩, fun e => e.1⟩
    · obtain ⟨n, room, b', hw⟩ := (h _).2 hb
      rw [Writer.run, hw]
      rw [hempty] at hb
      simp only [reduceCtorEq, Option.some.injEq, false_iff]
      rintro ⟨rfl, hl⟩
      exact hb hl

/-- Without a limit, a run ends well exactly with the output. -/
theorem run_none_eq_ok_iff (h : Writes w o?) {o : List UInt8} :
    w.run none = .ok o ↔ o? = some o := by
  simp [h.run_eq_ok_iff]

/-- A buffer without limit ends up with the output in front, if there is one. -/
theorem eq_ok_iff_of_unlimited (h : Writes w o?) {b b' : Buffer} (hb : b.limit = none) :
    w b = .ok () b' ↔ ∃ o, o? = some o ∧ b' = b.prepend o := by
  cases o? with
  | none =>
    obtain ⟨e, b'', hw⟩ := h b
    simp [hw]
  | some o =>
    have hfits : b.Fits o.length := by
      intro room hroom
      rw [Buffer.remaining, hb] at hroom
      cases hroom
    simp [(h b).1 hfits, eq_comm]

/-- An output that the limit does not admit leaves the buffer full. -/
theorem run_eq_bufferFull {o : List UInt8} (h : Writes w (some o)) {l : Nat}
    (ho : l < o.length) : ∃ needed room, w.run (some l) = .error (.bufferFull needed room) := by
  have hb : ¬(Buffer.empty (some l)).Fits o.length := by
    simpa [Buffer.Fits, Buffer.remaining, Buffer.empty] using ho
  obtain ⟨needed, room, b', hw⟩ := (h _).2 hb
  exact ⟨needed, room, by rw [Writer.run, hw]⟩

end Writes

/-! ## Elements -/

/-- The form of a length has the size that is predicted for it. -/
theorem Length.length_of_octets {n : Nat} {l : List UInt8} (h : Length.octets n = .ok l) :
    l.length = Length.size n := by
  unfold Length.octets Length.max at h
  unfold Length.size
  split_ifs at h ⊢ <;> cases h <;> rfl

/-- Exactly the lengths of two octets can be written. -/
theorem Length.exists_octets_iff {n : Nat} : (∃ l, Length.octets n = .ok l) ↔ n ≤ Length.max := by
  constructor
  · rintro ⟨l, h⟩
    unfold Length.octets Length.max at h
    unfold Length.max
    split_ifs at h <;> omega
  · intro h
    unfold Length.octets
    by_cases h₁ : n ≤ 0x7F
    · exact ⟨_, if_pos h₁⟩
    · by_cases h₂ : n ≤ 0xFF
      · exact ⟨_, by rw [if_neg h₁, if_pos h₂]⟩
      · exact ⟨_, by rw [if_neg h₁, if_neg h₂, if_pos h]⟩

/-- An element: a tag, the length of the content, and the content. There is none
    where the content is too long for a length. -/
def Element.octets? (t : Tag) (content : List UInt8) : Option (List UInt8) :=
  append? (some [t]) (append? (Length.octets content.length).toOption (some content))

namespace Element

variable {t : Tag} {content o : List UInt8}

theorem octets?_eq_some :
    octets? t content = some o ↔ ∃ l, Length.octets content.length = .ok l ∧
      o = t :: (l ++ content) := by
  unfold octets?
  cases Length.octets content.length <;> simp [append?, Except.toOption, eq_comm]

/-- There is an element exactly where its content has a length that can be
    written. -/
theorem exists_octets?_iff : (∃ o, octets? t content = some o) ↔ content.length ≤ Length.max := by
  rw [← Length.exists_octets_iff]
  constructor
  · rintro ⟨o, h⟩
    obtain ⟨l, hl, -⟩ := octets?_eq_some.1 h
    exact ⟨l, hl⟩
  · rintro ⟨l, hl⟩
    exact ⟨_, octets?_eq_some.2 ⟨l, hl, rfl⟩⟩

/-- The size of an element follows from the size of its content. -/
theorem length_of_octets? (h : octets? t content = some o) :
    o.length = 1 + Length.size content.length + content.length := by
  obtain ⟨l, hl, rfl⟩ := octets?_eq_some.1 h
  rw [List.length_cons, List.length_append, Length.length_of_octets hl]
  omega

end Element

namespace Writer

variable {w : Writer} {o? : Option (List UInt8)}

theorem writes_length (n : Nat) : Writes (length n) (Length.octets n).toOption := by
  unfold length
  cases h : Length.octets n with
  | ok octets => exact writes_push octets
  | error e => exact writes_throw e

theorem writes_tag (t : Tag) : Writes (tag t) (some [t]) := writes_push [t]

theorem writes_element (t : Tag) (content : List UInt8) :
    Writes (element t content) (Element.octets? t content) := by
  rw [Element.octets?, ← append?_assoc]
  exact (writes_push content).bind ((writes_length content.length).bind (writes_tag t))

/-- What a constructed element runs, once the size of its content is known. -/
theorem constructed_eq {o : List UInt8} (t : Tag) (h : Writes w (some o)) :
    constructed t w = (do w; length o.length; tag t) := by
  funext b
  by_cases hb : b.Fits o.length
  · -- The size of the content is how much the buffer has grown.
    have hw := (h b).1 hb
    have hsize : (b.prepend o).size - b.size = o.length := Nat.add_sub_cancel _ _
    rw [bind_of_ok hw, ← hsize]
    exact (get_bind _ _).trans (bind_of_ok hw)
  · obtain ⟨needed, room, b', hw⟩ := (h b).2 hb
    rw [bind_of_error hw]
    exact (get_bind _ _).trans (bind_of_error hw)

/-- A constructed element is the element of what its content puts in front. -/
theorem writes_constructed (t : Tag) (h : Writes w o?) :
    Writes (constructed t w) (o?.bind (Element.octets? t)) := by
  cases o? with
  | none =>
    intro b
    obtain ⟨e, b', hw⟩ := h b
    exact ⟨e, b', (get_bind _ _).trans (bind_of_error hw)⟩
  | some o =>
    rw [constructed_eq t h, Option.bind_some, Element.octets?, ← append?_assoc]
    exact h.bind ((writes_length o.length).bind (writes_tag t))

/-- The outputs of a list of writers stand in the order of the list. -/
theorem writes_inOrder {α : Type} {write : α → Writer} {output : α → Option (List UInt8)}
    {xs : List α} (h : ∀ x ∈ xs, Writes (write x) (output x)) :
    Writes (inOrder write xs) (concat? (xs.map output)) := by
  induction xs with
  | nil => exact writes_pure
  | cons x xs ih =>
    -- What stands first is written last.
    have hrun : inOrder write (x :: xs) = (do inOrder write xs; write x) := by
      simp [inOrder, List.forM_append]
    rw [hrun]
    exact (ih fun y hy => h y (List.mem_cons_of_mem x hy)).bind (h x List.mem_cons_self)

end Writer

end SnmpAgent
