import SnmpAgent.Proofs.Ber.Forms
import SnmpAgent.Frame

/-!
# What frames are

A frame is judged by its outermost header, for which the octets before which no
frame is judged are always enough. It is complete exactly if it is an element
with the tag of a SEQUENCE, of acceptable size, and incomplete exactly if it is
too short to be judged or the beginning of such an element.

The octets in use of a buffer are a list that grows, is replaced and is
emptied. What else the space holds is never seen.

* `Frame.status_eq_complete_iff`, `Frame.status_eq_incomplete_iff`: complete
  and incomplete frames;
* `Frame.status_of_isPrefix`: what begins a complete frame is incomplete;
* `FrameBuffer.Sound`: the buffers whose use stays within a space for one
  message;
* `FrameBuffer.filled_extend`, `FrameBuffer.exists_stage?`,
  `FrameBuffer.filled_clear`: the octets in use after each operation.
-/

namespace SnmpAgent

/-! ## Frames -/

namespace Frame

variable {data : List UInt8}

theorem status_of_length_lt (h : data.length < minPacketSize) : status data = .ok .incomplete := by
  cases data with
  | nil => rfl
  | cons tag rest => rw [status, if_pos h]

/-- Where there are enough octets to judge, the header of a SEQUENCE decides. -/
theorem status_of_header {l content : List UInt8} {n : Nat} (hl : Length.Form l n)
    (hmin : minPacketSize ≤ (Tag.sequence :: (l ++ content)).length) :
    status (Tag.sequence :: (l ++ content)) =
      if n = 0 ∨ maxPacketSize < 1 + l.length + n then
        .error ⟨1, .lengthExceedsMax (1 + l.length + n) maxPacketSize⟩
      else if content.length < n then .ok .incomplete
      else if content.length = n then .ok .complete
      else .error ⟨1 + l.length + n,
        .lengthMismatch (1 + l.length + n) (1 + l.length + content.length)⟩ := by
  have hlength : (Tag.sequence :: (l ++ content)).length = 1 + l.length + content.length := by
    rw [List.length_cons, List.length_append]
    omega
  have hdecode : Length.decode (l ++ content) 1 = .ok (n, l.length) :=
    Length.decode_eq_ok_iff.2 ⟨l, content, hl, rfl, rfl⟩
  rw [status, if_neg (Nat.not_lt.2 hmin), if_neg (not_not.2 rfl), hdecode, hlength]
  simp only [bind, Except.bind, Nat.add_lt_add_iff_left, Nat.add_left_cancel_iff]

/-- Octets that are judged well begin with the header of a SEQUENCE. -/
theorem exists_header {s : Status} (h : status data = .ok s) (hmin : minPacketSize ≤ data.length) :
    ∃ l content n, Length.Form l n ∧ data = Tag.sequence :: (l ++ content) := by
  cases data with
  | nil => exact absurd hmin (by decide)
  | cons tag rest =>
    rw [status, if_neg (Nat.not_lt.2 hmin)] at h
    split_ifs at h with htag
    obtain ⟨⟨n, used⟩, hdecode, -⟩ := except_bind_eq_ok.1 h
    obtain ⟨l, content, hl, rfl, -⟩ := Length.decode_eq_ok_iff.1 hdecode
    exact ⟨l, content, n, hl, by rw [not_not.1 htag]⟩

/-- A frame is complete exactly if it is an element of acceptable size with the
    tag of a SEQUENCE. -/
theorem status_eq_complete_iff : status data = .ok .complete ↔
    minPacketSize ≤ data.length ∧ data.length ≤ maxPacketSize ∧
      ∃ l content, Length.Form l content.length ∧ data = Tag.sequence :: (l ++ content) := by
  constructor
  · intro h
    have hmin : minPacketSize ≤ data.length := by
      by_contra hshort
      rw [status_of_length_lt (Nat.not_le.1 hshort)] at h
      cases h
    obtain ⟨l, content, n, hl, rfl⟩ := exists_header h hmin
    rw [status_of_header hl hmin] at h
    split_ifs at h with hsize hless hall
    · cases h
    subst hall
    refine ⟨hmin, ?_, l, content, hl, rfl⟩
    rw [List.length_cons, List.length_append]
    omega
  · rintro ⟨hmin, hmax, l, content, hl, rfl⟩
    -- A frame of that size is more than a header, so its content is not empty.
    have hle := hl.length_le
    rw [status_of_header hl hmin, if_neg, if_neg (Nat.lt_irrefl _), if_pos rfl]
    rw [List.length_cons, List.length_append] at hmin hmax
    rw [minPacketSize] at hmin
    omega

/-- A frame is incomplete exactly if it is too short to be judged, or begins an
    element of acceptable size with the tag of a SEQUENCE and lacks some of its
    content. -/
theorem status_eq_incomplete_iff : status data = .ok .incomplete ↔ data.length < minPacketSize ∨
    ∃ l content n, Length.Form l n ∧ data = Tag.sequence :: (l ++ content) ∧ content.length < n ∧
      1 + l.length + n ≤ maxPacketSize := by
  by_cases hmin : data.length < minPacketSize
  · exact iff_of_true (status_of_length_lt hmin) (.inl hmin)
  · rw [or_iff_right hmin]
    constructor
    · intro h
      obtain ⟨l, content, n, hl, rfl⟩ := exists_header h (Nat.not_lt.1 hmin)
      rw [status_of_header hl (Nat.not_lt.1 hmin)] at h
      split_ifs at h with hsize hless hall
      · exact ⟨l, content, n, hl, rfl, hless, by omega⟩
      · cases h
    · rintro ⟨l, content, n, hl, rfl, hless, hmax⟩
      rw [status_of_header hl (Nat.not_lt.1 hmin), if_neg (by omega), if_pos hless]

/-- What is incomplete leaves room for more. -/
theorem length_lt_of_incomplete (h : status data = .ok .incomplete) :
    data.length < maxPacketSize := by
  rcases status_eq_incomplete_iff.1 h with hmin | ⟨l, content, n, hl, rfl, hless, hmax⟩
  · exact Nat.lt_trans hmin (by decide)
  · rw [List.length_cons, List.length_append]
    omega

/-- What begins a complete frame without being one is incomplete. -/
theorem status_of_isPrefix {q : List UInt8} (h : status data = .ok .complete)
    (hbegins : q <+: data) (hne : q ≠ data) : status q = .ok .incomplete := by
  obtain ⟨-, hmax, l, content, hl, rfl⟩ := status_eq_complete_iff.1 h
  refine status_eq_incomplete_iff.2 (or_iff_not_imp_left.2 fun hmin => ?_)
  -- The header is shorter than what is not judged.
  obtain ⟨rest, hrest⟩ := hbegins
  have hwhole : Tag.sequence :: l <+: Tag.sequence :: (l ++ content) :=
    List.prefix_append (Tag.sequence :: l) content
  have hshort : (Tag.sequence :: l).length ≤ q.length := by
    have hle := hl.length_le
    rw [minPacketSize] at hmin
    rw [List.length_cons]
    omega
  have hheader : Tag.sequence :: l <+: q :=
    List.prefix_of_prefix_length_le hwhole ⟨rest, hrest⟩ hshort
  obtain ⟨content', rfl⟩ := hheader
  have hcontent : content' ++ rest = content := by simpa using hrest
  have hmore : rest ≠ [] := by
    rintro rfl
    exact hne (by rw [← hrest, List.append_nil])
  refine ⟨l, content', content.length, hl, rfl, ?_, ?_⟩
  · have := List.length_pos_iff.2 hmore
    rw [← hcontent, List.length_append]
    omega
  · rw [List.length_cons, List.length_append] at hmax
    omega

end Frame

/-! ## Buffers -/

namespace FrameBuffer

/-- The buffers whose use stays within a space for one message. -/
structure Sound (f : FrameBuffer) : Prop where
  capacity_eq : f.capacity = maxPacketSize
  used_le : f.used ≤ f.capacity

theorem sound_empty : Sound empty := by
  constructor
  · exact List.length_replicate
  · exact Nat.zero_le _

variable {f : FrameBuffer}

theorem filled_clear (f : FrameBuffer) : f.clear.filled = [] := rfl

theorem Sound.clear (h : f.Sound) : f.clear.Sound := ⟨h.capacity_eq, Nat.zero_le _⟩

theorem Sound.length_filled (h : f.Sound) : f.filled.length = f.used :=
  List.length_take_of_le h.used_le

/-- What the octets in use leave of the space. -/
theorem Sound.spare_eq (h : f.Sound) : f.spare = maxPacketSize - f.filled.length := by
  rw [spare, h.capacity_eq, h.length_filled]

/-- A buffer whose octets in use are fewer than a message may have is not full. -/
theorem Sound.isFull_eq_false (h : f.Sound) (hlength : f.filled.length < maxPacketSize) :
    f.isFull = false := by
  rw [h.length_filled] at hlength
  rw [isFull, h.capacity_eq]
  exact decide_eq_false (Nat.ne_of_lt hlength)

/-- Octets that fit are stored where they are put, and no space is lost. -/
theorem space_store {start : Nat} {octets : List UInt8}
    (hfits : start + octets.length ≤ f.capacity) : (f.store start octets).space =
      f.space.take start ++ octets ++ f.space.drop (start + octets.length) := by
  have htake : octets.take (f.capacity - start) = octets := List.take_of_length_le (by omega)
  simp only [store, htake]

theorem capacity_store {start : Nat} {octets : List UInt8}
    (hfits : start + octets.length ≤ f.capacity) :
    (f.store start octets).capacity = f.capacity := by
  rw [capacity, space_store hfits]
  rw [capacity] at hfits ⊢
  simp only [List.length_append, List.length_take, List.length_drop]
  omega

/-- Octets that fit are appended to those in use. -/
theorem Sound.extend (h : f.Sound) {octets : List UInt8} (hfits : octets.length ≤ f.spare) :
    (f.extend octets).Sound ∧ (f.extend octets).filled = f.filled ++ octets := by
  have hused := h.used_le
  have hroom : f.used + octets.length ≤ f.capacity := by
    rw [spare] at hfits
    omega
  have hcapacity := capacity_store hroom
  have hextend : f.extend octets =
      ⟨(f.store f.used octets).space, f.used + octets.length⟩ := by
    rw [FrameBuffer.extend, List.take_of_length_le hfits, advance, hcapacity]
    exact congrArg (FrameBuffer.mk _) (Nat.min_eq_left hroom)
  rw [hextend]
  refine ⟨⟨hcapacity.trans h.capacity_eq, hroom.trans_eq hcapacity.symm⟩, ?_⟩
  rw [filled, space_store hroom]
  have hlength : (f.space.take f.used ++ octets).length = f.used + octets.length := by
    rw [List.length_append, List.length_take_of_le h.used_le]
  rw [List.take_left' hlength, filled]

/-- A message of acceptable size can be staged. -/
theorem Sound.exists_stage? (h : f.Sound) {message : List UInt8}
    (hmax : message.length ≤ maxPacketSize) :
    ∃ g, f.stage? message = some g ∧ g.Sound ∧ g.filled = message := by
  have hroom : message.length ≤ f.capacity := hmax.trans_eq h.capacity_eq.symm
  have hfits : 0 + message.length ≤ f.capacity := by rwa [Nat.zero_add]
  have hcapacity := capacity_store hfits
  refine ⟨_, if_pos hroom, ⟨hcapacity.trans h.capacity_eq, hroom.trans_eq hcapacity.symm⟩, ?_⟩
  rw [filled, space_store hfits, List.take_zero, List.nil_append]
  exact List.take_left

end FrameBuffer

end SnmpAgent
