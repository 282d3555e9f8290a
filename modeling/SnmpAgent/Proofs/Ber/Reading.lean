import SnmpAgent.Proofs.Ber.Writing
import SnmpAgent.Ber.Reader

/-!
# What readers read

A reader is described by the octets that it takes: from wherever they stand
and whatever follows them, it gives the same result and stops right behind
them (`Takes`). Inside a container nothing may follow, so there it is enough
that the octets fill the container (`Fills`). What holds of everything that a
reader can give is a property that it ensures (`Ensures`).

* `Takes.bind`, `Fills.bind`: one reader after another takes the octets of the
  one and then of the other;
* `takes_length`, `takes_expectTag`: lengths and tags that were written are
  read again;
* `takes_inside`: an element is taken by a reader of its content.
-/

namespace SnmpAgent

/-! ## Lengths -/

/-- A length that was written is read again, and the reading stops behind it. -/
theorem Length.decode_octets {n : Nat} {l : List UInt8} (h : Length.octets n = .ok l)
    (rest : List UInt8) (base : Nat) : Length.decode (l ++ rest) base = .ok (n, l.length) := by
  unfold Length.octets Length.max at h
  split_ifs at h with h₁ h₂ h₃ <;> cases h
  · -- A short length is an octet without its top bit.
    have hn : (UInt8.ofNat n).toNat = n :=
      UInt8.toNat_ofNat_of_lt' (Nat.lt_of_le_of_lt h₁ (by decide))
    have hlt : UInt8.ofNat n < 0x80 := by
      rw [UInt8.lt_iff_toNat_lt, hn]
      exact Nat.lt_of_le_of_lt h₁ (by decide)
    simp [Length.decode, hlt, hn]
  · -- Behind the octet 0x81 stands the length.
    have hn : (UInt8.ofNat n).toNat = n :=
      UInt8.toNat_ofNat_of_lt' (Nat.lt_of_le_of_lt h₂ (by decide))
    simp [Length.decode, hn]
  · -- Behind the octet 0x82 stand the two digits of the length.
    have hhigh : (UInt8.ofNat (n / 256)).toNat = n / 256 :=
      UInt8.toNat_ofNat_of_lt' (Nat.div_lt_of_lt_mul (Nat.lt_of_le_of_lt h₃ (by decide)))
    have hlow : (UInt8.ofNat n).toNat = n % 256 := UInt8.toNat_ofNat'
    have hn : n / 256 * 256 + n % 256 = n := Nat.div_add_mod' n 256
    have hrest : ¬rest.length + 1 + 1 < 2 := by omega
    simp [Length.decode, hhigh, hlow, hn, hrest]

/-! ## Octets taken -/

/-- Wherever the octets `o` stand, the reader takes exactly them and gives `a`. -/
def Takes {α : Type} (r : Reader α) (o : List UInt8) (a : α) : Prop :=
  ∀ offset rest, r ⟨offset, o ++ rest⟩ = .ok a ⟨offset + o.length, rest⟩

/-- In a container of the octets `o`, the reader gives `a`. -/
def Fills {α : Type} (r : Reader α) (o : List UInt8) (a : α) : Prop :=
  ∀ offset, ∃ c, r ⟨offset, o⟩ = .ok a c

/-- Whatever the reader gives has the property `P`. -/
def Ensures {α : Type} (r : Reader α) (P : α → Prop) : Prop := ∀ c a c', r c = .ok a c' → P a

variable {α β : Type} {r : Reader α} {f : α → Reader β} {o o₁ o₂ : List UInt8} {a : α} {b : β}

theorem Takes.bind (h₁ : Takes r o₁ a) (h₂ : Takes (f a) o₂ b) :
    Takes (r >>= f) (o₁ ++ o₂) b := by
  intro offset rest
  rw [List.append_assoc, bind_of_ok (h₁ offset (o₂ ++ rest)), h₂, List.length_append,
    Nat.add_assoc]

theorem Fills.bind (h₁ : Takes r o₁ a) (h₂ : Fills (f a) o₂ b) :
    Fills (r >>= f) (o₁ ++ o₂) b := by
  intro offset
  rw [bind_of_ok (h₁ offset o₂)]
  exact h₂ (offset + o₁.length)

theorem Ensures.bind {P : β → Prop} {Q : α → Prop} (h₁ : Ensures r Q)
    (h₂ : ∀ a, Q a → Ensures (f a) P) : Ensures (r >>= f) P := by
  intro c b c' h
  obtain ⟨a, t, ha, hb⟩ := bind_eq_ok.1 h
  exact h₂ a (h₁ c a t ha) t b c' hb

theorem ensures_pure {P : α → Prop} (h : P a) : Ensures (pure a) P := by
  intro c a' c' he
  cases he
  exact h

/-- Where nothing is known of the first result, the second reader must ensure
    the property from every one. -/
theorem Ensures.of_bind {P : β → Prop} (h : ∀ a, Ensures (f a) P) : Ensures (r >>= f) P :=
  Ensures.bind (Q := fun _ => True) (fun _ _ _ _ => trivial) fun a _ => h a

theorem takes_pure (a : α) : Takes (pure a) [] a := fun _ _ => rfl

/-- A function of what a reader gives takes no further octets. -/
theorem Takes.map (h : Takes r o a) (g : α → β) : Takes (do return g (← r)) o (g a) := by
  have hb := Takes.bind (f := fun a => pure (g a)) h (takes_pure (g a))
  rwa [List.append_nil] at hb

theorem Fills.map (h : Fills r o a) (g : α → β) : Fills (do return g (← r)) o (g a) := by
  intro start
  obtain ⟨c, hc⟩ := h start
  exact ⟨c, bind_of_ok hc⟩

namespace Reader

/-- The offset is the one piece of the surroundings that a reader may ask for. -/
theorem takes_offset {f : Nat → Reader α} (h : ∀ n, Takes (f n) o a) :
    Takes (offset >>= f) o a := fun n rest => h n n rest

theorem fills_offset {f : Nat → Reader α} (h : ∀ n, Fills (f n) o a) :
    Fills (offset >>= f) o a := fun n => h n n

theorem takes_octet (b : UInt8) : Takes octet [b] b := fun _ _ => rfl

theorem takes_octets (o : List UInt8) : Takes (octets o.length) o o := by
  intro offset rest
  simp [octets, Cursor.remaining, Cursor.skip]

theorem takes_length {n : Nat} (h : Length.octets n = .ok o) : Takes length o n := by
  intro offset rest
  simp [length, Length.decode_octets h, Cursor.skip]

theorem takes_expectTag {t : Tag} {n : Nat} (h : Length.octets n = .ok o) :
    Takes (expectTag t) (t :: o) n := by
  refine takes_offset fun start => Takes.bind (takes_octet t) ?_
  rw [if_pos rfl]
  exact takes_length h

/-- A primitive element is taken by a reader of its tag and a reader of its
    content. -/
theorem takes_primitive {t : Tag} {content : List UInt8} {f : Nat → Reader α}
    (h : Element.octets? t content = some o) (hf : Takes (f content.length) content a) :
    Takes (expectTag t >>= f) o a := by
  obtain ⟨l, hl, rfl⟩ := Element.octets?_eq_some.1 h
  exact (takes_expectTag hl).bind hf

/-- A constructed element is taken by a reader that its content fills. -/
theorem takes_inside {t : Tag} {content : List UInt8}
    (h : Element.octets? t content = some o) (hr : Fills r content a) :
    Takes (do let container ← constructed t; inside container r) o a := by
  unfold constructed
  rw [bind_assoc]
  refine takes_primitive h ?_
  intro offset rest
  obtain ⟨c, hc⟩ := hr offset
  -- The content is split off, so inside nothing is seen of the rest.
  have hsplit : split content.length ⟨offset, content ++ rest⟩ =
      .ok ⟨offset, content⟩ ⟨offset + content.length, rest⟩ :=
    (bind_of_ok (x := Reader.offset) rfl).trans (bind_of_ok (takes_octets content offset rest))
  rw [bind_of_ok hsplit, inside, hc]

/-- A container that declares the size of its content is filled by that
    content. -/
theorem fills_inside {content : List UInt8} (hr : Fills r content a) :
    Fills (do
      expectRemaining content.length
      let container ← split content.length
      inside container r) content a := by
  intro start
  obtain ⟨c, hc⟩ := hr start
  refine ⟨⟨start + content.length, []⟩, ?_⟩
  have hsplit : split content.length ⟨start, content⟩ =
      .ok ⟨start, content⟩ ⟨start + content.length, []⟩ := by
    have htake := takes_octets content start []
    rw [List.append_nil] at htake
    exact (bind_of_ok (x := Reader.offset) rfl).trans (bind_of_ok htake)
  have hall : expectRemaining content.length ⟨start, content⟩ = .ok () ⟨start, content⟩ :=
    if_pos rfl
  rw [bind_of_ok hall, bind_of_ok hsplit, inside, hc]

/-- A container that is used up has nothing left. -/
theorem fills_expectRemaining (a : α) : Fills (do expectRemaining 0; pure a) [] a :=
  fun _ => ⟨_, rfl⟩

/-! ## What readers ensure -/

variable {P : α → Prop}

theorem ensures_failAt (start : Nat) (fault : DecodeFault) : Ensures (failAt start fault) P := by
  intro c a c' h
  cases h

theorem ensures_fail (fault : DecodeFault) : Ensures (fail fault) P := by
  intro c a c' h
  cases h

theorem ensures_ofExcept {e : Except DecodeError α} (h : ∀ a, e = .ok a → P a) :
    Ensures (ofExcept e) P := by
  cases e with
  | ok a => exact ensures_pure (h a rfl)
  | error e =>
    intro c a c' hc
    cases hc

theorem ensures_inside {container : Cursor} (h : Ensures r P) : Ensures (inside container r) P := by
  intro c a c' hc
  rw [inside] at hc
  split at hc
  · rename_i b c'' hr
    cases hc
    exact h _ _ _ hr
  · cases hc

end Reader

end SnmpAgent
