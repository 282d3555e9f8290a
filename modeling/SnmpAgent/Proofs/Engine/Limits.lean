import SnmpAgent.Proofs.Engine.Encoding

/-!
# Size limits

A limit decides whether an encoding ends well, and nothing else
(`OnlyAdmits`): within the limit stands what would be written without one, and
what is larger leaves the buffer full. That is what lets a bulk reply be
cut to a size by trying.

The buffer keeps its limit itself, whatever is done to it. A `Script` is
anything that can be done: one push after the other, each chosen in view of
what came of the pushes before, those that failed included. Every single push
keeps what was written before it and stays within the limit (`Careful`), hence
so does a script.

* `Script.careful`: a script stays within the limit;
* `limit_only_admits`: what a limit does to messages, to replies and to
  buffers.
-/

namespace SnmpAgent

/-! ## Encodings -/

/-- The limit of an encoding decides whether it ends well, and nothing else. -/
structure OnlyAdmits (encode : Option Nat → Except EncodeError (List UInt8)) : Prop where
  /-- Within a limit stands what would be written without one, if the limit
      admits it. -/
  eq_ok_iff : ∀ l o, encode (some l) = .ok o ↔ encode none = .ok o ∧ o.length ≤ l
  bufferFull : ∀ l o, encode none = .ok o → l < o.length →
    ∃ needed room, encode (some l) = .error (.bufferFull needed room)

/-- The limit of a run only decides whether the output of the writer is
    admitted. -/
theorem Writes.onlyAdmits {w : Writer} {o? : Option (List UInt8)} (h : Writes w o?) :
    OnlyAdmits w.run where
  eq_ok_iff l o := by
    rw [h.run_eq_ok_iff, h.run_none_eq_ok_iff]
    simp
  bufferFull l o ho hl := by
    rw [h.run_none_eq_ok_iff] at ho
    subst ho
    exact h.run_eq_bufferFull hl

/-! ## Buffers -/

/-- What may become of a buffer: it keeps its limit and what is written in it,
    and it does not outgrow the limit. -/
structure Buffer.Grows (b b' : Buffer) : Prop where
  limit : b'.limit = b.limit
  /-- What was written stays, behind what is put in front. -/
  kept : b.octets <:+ b'.octets
  within : ∀ l, b.limit = some l → b.size ≤ l → b'.size ≤ l

namespace Buffer

variable {b b' b'' : Buffer}

theorem Grows.refl (b : Buffer) : b.Grows b :=
  ⟨rfl, List.suffix_rfl, fun _ _ h => h⟩

theorem Grows.trans (h : b.Grows b') (h' : b'.Grows b'') : b.Grows b'' where
  limit := h'.limit.trans h.limit
  kept := h.kept.trans h'.kept
  within l hl hb := h'.within l (h.limit.trans hl) (h.within l hl hb)

/-- Octets that have room may be put in front. -/
theorem grows_prepend {octets : List UInt8} (h : b.Fits octets.length) :
    b.Grows (b.prepend octets) where
  limit := rfl
  kept := List.suffix_append _ _
  within l hl hb := by
    have hroom : octets.length ≤ l - b.size := h (l - b.size) (by rw [remaining, hl]; rfl)
    change octets.length + b.size ≤ l
    omega

end Buffer

namespace Writer

/-- The buffer that a writer leaves, whether or not it ended well. -/
def leaves (w : Writer) (b : Buffer) : Buffer :=
  match w b with
  | .ok _ b' => b'
  | .error _ b' => b'

/-- Runs a writer and goes on in view of what came of it. -/
def followedBy (w : Writer) (next : Except EncodeError Unit → Writer) : Writer := fun b =>
  match w b with
  | .ok _ b' => next (.ok ()) b'
  | .error e b' => next (.error e) b'

/-- Whether a writer keeps what is written and stays within the limit, even if
    it fails. -/
def Careful (w : Writer) : Prop := ∀ b : Buffer, b.Grows (w.leaves b)

variable {w w' : Writer}

theorem careful_pure : Careful (pure ()) := fun b => Buffer.Grows.refl b

theorem careful_throw (e : EncodeError) : Careful (throw e) := fun b => Buffer.Grows.refl b

/-- A push that has no room leaves the buffer as it was. -/
theorem careful_push (octets : List UInt8) : Careful (push octets) := by
  intro b
  by_cases hb : b.Fits octets.length
  · rw [leaves, ((writes_push octets) b).1 hb]
    exact Buffer.grows_prepend hb
  · obtain ⟨room, hr, hroom⟩ : ∃ room, b.remaining = some room ∧ ¬octets.length ≤ room := by
      simpa [Buffer.Fits] using hb
    have hpush : push octets b = .error (.bufferFull octets.length room) b := by
      rw [push, hr]
      exact if_neg hroom
    rw [leaves, hpush]
    exact Buffer.Grows.refl b

theorem Careful.bind (h : Careful w) (h' : Careful w') : Careful (do w; w') := by
  intro b
  have hw := h b
  unfold leaves at hw ⊢
  cases hb : w b with
  | ok u b₁ =>
    rw [hb] at hw
    rw [bind_of_ok hb]
    exact hw.trans (h' b₁)
  | error e b₁ =>
    rw [hb] at hw
    rw [bind_of_error hb]
    exact hw

/-- To go on after a failure is safe too, since a failure leaves the buffer
    within its limit. -/
theorem Careful.followedBy (h : Careful w) {next : Except EncodeError Unit → Writer}
    (hnext : ∀ outcome, Careful (next outcome)) : Careful (w.followedBy next) := by
  intro b
  have hw := h b
  unfold leaves Writer.followedBy at *
  cases hb : w b with
  | ok u b₁ =>
    rw [hb] at hw
    exact hw.trans (hnext (.ok ()) b₁)
  | error e b₁ =>
    rw [hb] at hw
    exact hw.trans (hnext (.error e) b₁)

theorem careful_length (n : Nat) : Careful (length n) := by
  unfold length
  split
  · exact careful_push _
  · exact careful_throw _

theorem careful_element (t : Tag) (content : List UInt8) : Careful (element t content) :=
  (careful_push content).bind ((careful_length content.length).bind (careful_push [t]))

theorem Careful.constructed (h : Careful w) (t : Tag) : Careful (constructed t w) := by
  intro b
  -- Once the size before is known, the size after is read off the buffer that is left.
  have hrest : Careful (do w; fun b' => (do length (b'.size - b.size); tag t) b') :=
    h.bind fun b' => (careful_length _).bind (careful_push [t]) b'
  exact hrest b

end Writer

/-! ## Scripts -/

/-- What is put in front of a buffer at one go: octets as they are, be it a
    single one or an element that is already encoded, a length, or an element
    whose content is given. -/
inductive Portion where
  | raw (octets : List UInt8)
  | length (n : Nat)
  | element (t : Tag) (content : List UInt8)

/-- Puts a portion in front. -/
def Portion.write : Portion → Writer
  | .raw octets => Writer.push octets
  | .length n => Writer.length n
  | .element t content => Writer.element t content

/-- Anything that can be done to a buffer. What comes next may depend on what
    came of the last push, so that a failure may end the script, may be passed
    on, or may be ignored. The content of a constructed element is what another
    script puts in front. -/
inductive Script where
  | done (outcome : Except EncodeError Unit)
  | push (p : Portion) (next : Except EncodeError Unit → Script)
  | constructed (t : Tag) (content : Script) (next : Except EncodeError Unit → Script)

namespace Script

/-- Does what the script says. -/
def write : Script → Writer
  | done (.ok ()) => pure ()
  | done (.error e) => throw e
  | push p next => p.write.followedBy fun outcome => (next outcome).write
  | constructed t content next =>
    (Writer.constructed t content.write).followedBy fun outcome => (next outcome).write

/-- What is left of an empty buffer with a limit. -/
def buffer (s : Script) (limit : Nat) : Buffer := s.write.leaves (Buffer.empty (some limit))

/-- A script stays within the limit, whatever it does. -/
theorem careful (s : Script) : s.write.Careful := by
  induction s with
  | done outcome =>
    cases outcome with
    | ok => exact Writer.careful_pure
    | error e => exact Writer.careful_throw e
  | push p next ih =>
    refine Writer.Careful.followedBy ?_ ih
    cases p with
    | raw octets => exact Writer.careful_push octets
    | length n => exact Writer.careful_length n
    | element t content => exact Writer.careful_element t content
  | constructed t content next ihcontent ih => exact (ihcontent.constructed t).followedBy ih

end Script

/-! ## Limits -/

/-- A limit changes only whether a message or a reply is encoded: it is, if what
    would be written without a limit is admitted, and otherwise the buffer is
    full. No script outgrows the limit of a buffer, and the room that is left is
    what the limit admits beyond the octets written. -/
theorem limit_only_admits :
    (∀ m : Message, OnlyAdmits m.encode) ∧
      (∀ (r : Response) (request : Message), OnlyAdmits (r.encode request)) ∧
      ∀ (s : Script) (limit : Nat), (s.buffer limit).octets.length ≤ limit ∧
        (s.buffer limit).remaining = some (limit - (s.buffer limit).octets.length) := by
  refine ⟨fun m => m.writes_write.onlyAdmits,
    fun r request => (r.writes_write request).onlyAdmits, fun s limit => ?_⟩
  have hgrows : (Buffer.empty (some limit)).Grows (s.buffer limit) := s.careful _
  rw [← (s.buffer limit).size_eq]
  refine ⟨hgrows.within limit rfl (Nat.zero_le limit), ?_⟩
  rw [Buffer.remaining, hgrows.limit]
  rfl

/-- What fails for want of room is not written, and less may be written after
    it. -/
example :
    (Script.push (.raw [1, 2, 3]) fun _ => .push (.raw [4]) .done).buffer 2 =
      ⟨[4], some 2, 1, rfl⟩ := rfl

end SnmpAgent
