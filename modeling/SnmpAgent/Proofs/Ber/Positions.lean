import SnmpAgent.Proofs.Ber.Forms
import SnmpAgent.Proofs.Oid.Forms

/-!
# Positions

A reader moves a cursor forward and never out of its container, whether or not
it gives a result. The offset that a refusal names lies in the container too,
or right behind it, where octets are missing (`Within`). The offsets are
absolute: a container inside another one has its offsets in between.

* `Oid.offset_of_ofContent`: what is refused in the content of an identifier
  lies in it;
* `Within.bind`, `Reader.within_offset`: one reader after another, and a reader
  that keeps in mind where it began;
* `Reader.within_split_inside`: the offsets in a container that is split off.
-/

namespace SnmpAgent

/-! ## Lengths and identifiers -/

/-- No more octets are taken for a length than there are. -/
theorem Length.le_length_of_decode {data : List UInt8} {base n used : Nat}
    (h : decode data base = .ok (n, used)) : used ≤ data.length := by
  obtain ⟨l, rest, -, rfl, rfl⟩ := decode_eq_ok_iff.1 h
  rw [List.length_append]
  exact Nat.le_add_right _ _

/-- A length is refused where it begins. -/
theorem Length.offset_of_decode {data : List UInt8} {base : Nat} {e : DecodeError}
    (h : decode data base = .error e) : e.offset = base := by
  cases data with
  | nil =>
    cases h
    rfl
  | cons first rest =>
    rw [decode] at h
    dsimp only at h
    split_ifs at h <;> cases h <;> rfl

namespace Oid

variable {base : Nat} {data : List UInt8} {e : DecodeError}

theorem offset_of_decodeSubidFrom {acc used : Nat}
    (h : decodeSubidFrom base acc used data = .error e) :
    base + used ≤ e.offset ∧ e.offset ≤ base + used + data.length := by
  induction data generalizing acc used with
  | nil =>
    cases h
    exact ⟨Nat.le_refl _, Nat.le_refl _⟩
  | cons b data ih =>
    rw [List.length_cons]
    rw [decodeSubidFrom] at h
    dsimp only at h
    split_ifs at h
    · cases h
      dsimp only
      omega
    · have hrest := ih h
      omega

/-- What is refused in a list of sub-identifiers lies in it, or right behind
    it. -/
theorem offset_of_decodeSubids {room : Nat} (h : decodeSubids base room data = .error e) :
    base ≤ e.offset ∧ e.offset ≤ base + data.length := by
  induction room generalizing base data with
  | zero =>
    rw [decodeSubids] at h
    split_ifs at h
    rcases except_bind_eq_error.1 h with hfirst | ⟨first, -, hnone⟩
    · exact offset_of_decodeSubidFrom hfirst
    · cases hnone
      dsimp only
      omega
  | succ room ih =>
    rw [decodeSubids] at h
    split_ifs at h
    rcases except_bind_eq_error.1 h with hfirst | ⟨⟨subid, used⟩, hfirst, hmore⟩
    · exact offset_of_decodeSubidFrom hfirst
    · obtain ⟨o, rest, -, rfl, rfl⟩ := decodeSubid_eq_ok_iff.1 hfirst
      rcases except_bind_eq_error.1 hmore with hrest | ⟨subids, -, hnone⟩
      · rw [List.drop_left] at hrest
        have hoffset := ih hrest
        rw [List.length_append]
        omega
      · cases hnone

/-- What is refused in the content of an identifier lies in it, or right behind
    it. -/
theorem offset_of_ofContent (h : ofContent data base = .error e) :
    base ≤ e.offset ∧ e.offset ≤ base + data.length := by
  rw [ofContent] at h
  split_ifs at h
  · cases h
    dsimp only
    omega
  · rcases except_bind_eq_error.1 h with hfirst | ⟨⟨first, used⟩, hfirst, hmore⟩
    · exact offset_of_decodeSubidFrom hfirst
    · obtain ⟨o, rest, -, rfl, rfl⟩ := decodeSubid_eq_ok_iff.1 hfirst
      dsimp only at hmore
      split_ifs at hmore
      · cases hmore
        dsimp only
        omega
      · rcases except_bind_eq_error.1 hmore with hrest | ⟨subids, -, hnone⟩
        · rw [List.drop_left] at hrest
          have hoffset := offset_of_decodeSubids hrest
          rw [List.length_append]
          omega
        · cases hnone

end Oid

/-! ## Cursors -/

namespace Cursor

/-- The absolute offset at which the container ends. -/
def stop (c : Cursor) : Nat := c.offset + c.remaining

/-- Whether a cursor stands further on in the same container, or at the same
    place. -/
def LeadsTo (c c' : Cursor) : Prop := ∃ n ≤ c.remaining, c' = c.skip n

variable {c c' c'' : Cursor}

theorem LeadsTo.refl (c : Cursor) : c.LeadsTo c := ⟨0, Nat.zero_le _, rfl⟩

theorem remaining_skip (c : Cursor) (n : Nat) : (c.skip n).remaining = c.remaining - n :=
  List.length_drop

theorem LeadsTo.trans (h : c.LeadsTo c') (h' : c'.LeadsTo c'') : c.LeadsTo c'' := by
  obtain ⟨n, hn, rfl⟩ := h
  obtain ⟨k, hk, rfl⟩ := h'
  rw [remaining_skip] at hk
  refine ⟨n + k, by omega, ?_⟩
  simp only [skip, List.drop_drop, Nat.add_assoc]

/-- Further on in a container the offset is no smaller and the end is the same. -/
theorem LeadsTo.offset_le (h : c.LeadsTo c') : c.offset ≤ c'.offset ∧ c'.stop = c.stop := by
  obtain ⟨n, hn, rfl⟩ := h
  rw [stop, stop, remaining_skip, skip]
  dsimp only
  omega

end Cursor

/-! ## Readers -/

/-- In a container of which the octets from the offset `lo` to the offset `hi`
    are at hand, the reader only moves forward, and what it refuses has one of
    these offsets. -/
def Within {α : Type} (lo hi : Nat) (r : Reader α) : Prop :=
  ∀ c : Cursor, lo ≤ c.offset → c.stop = hi →
    match r c with
    | .ok _ c' => c.LeadsTo c'
    | .error e c' => c.LeadsTo c' ∧ lo ≤ e.offset ∧ e.offset ≤ hi

variable {α β : Type} {lo hi : Nat} {r : Reader α} {f : α → Reader β}

theorem Within.leadsTo_of_ok {c c' : Cursor} {a : α} (h : Within c.offset c.stop r)
    (hr : r c = .ok a c') : c.LeadsTo c' := by
  have hc := h c (Nat.le_refl _) rfl
  rwa [hr] at hc

/-- One reader after another stays where both stay. -/
theorem Within.bind (h : Within lo hi r) (hf : ∀ a, Within lo hi (f a)) :
    Within lo hi (r >>= f) := by
  intro c hlo hhi
  have hr := h c hlo hhi
  cases hc : r c with
  | error e c' =>
    rw [hc] at hr
    rw [bind_of_error hc]
    exact hr
  | ok a c' =>
    rw [hc] at hr
    obtain ⟨hoffset, hstop⟩ := hr.offset_le
    have hfa := hf a c' (hlo.trans hoffset) (hstop.trans hhi)
    rw [bind_of_ok hc]
    split at hfa
    · exact hr.trans hfa
    · exact ⟨hr.trans hfa.1, hfa.2⟩

theorem within_pure (a : α) : Within lo hi (pure a) := fun c _ _ => Cursor.LeadsTo.refl c

namespace Reader

/-- Where a reader begins is an offset of the container. -/
theorem within_offset {f : Nat → Reader α}
    (h : ∀ start, lo ≤ start → start ≤ hi → Within lo hi (f start)) :
    Within lo hi (offset >>= f) := by
  intro c hlo hhi
  exact h c.offset hlo (hhi ▸ Nat.le_add_right _ _) c hlo hhi

theorem within_failAt {start : Nat} {fault : DecodeFault} (hlo : lo ≤ start) (hhi : start ≤ hi) :
    Within lo hi (failAt start fault : Reader α) :=
  fun c _ _ => ⟨Cursor.LeadsTo.refl c, hlo, hhi⟩

theorem within_fail (fault : DecodeFault) : Within lo hi (fail fault : Reader α) :=
  fun c hlo hhi => ⟨Cursor.LeadsTo.refl c, hlo, hhi ▸ Nat.le_add_right _ _⟩

theorem within_isEmpty : Within lo hi isEmpty := fun c _ _ => Cursor.LeadsTo.refl c

theorem within_peek : Within lo hi peek := fun c _ _ => Cursor.LeadsTo.refl c

theorem within_expectRemaining (n : Nat) : Within lo hi (expectRemaining n) := by
  intro c hlo hhi
  rw [expectRemaining]
  split_ifs
  · exact Cursor.LeadsTo.refl c
  · exact within_fail (α := Unit) _ c hlo hhi

theorem within_octet : Within lo hi octet := by
  intro c hlo hhi
  rw [octet]
  cases hrest : c.rest with
  | nil => exact within_fail (α := UInt8) _ c hlo hhi
  | cons b rest => exact ⟨1, by rw [Cursor.remaining, hrest]; exact Nat.succ_pos _, rfl⟩

theorem within_octets (n : Nat) : Within lo hi (octets n) := by
  intro c hlo hhi
  rw [octets]
  split_ifs with hn
  · exact ⟨n, hn, rfl⟩
  · exact within_fail (α := List UInt8) _ c hlo hhi

theorem within_length : Within lo hi length := by
  intro c hlo hhi
  rw [length]
  cases hdecode : Length.decode c.rest c.offset with
  | ok read => exact ⟨read.2, Length.le_length_of_decode hdecode, rfl⟩
  | error e =>
    have hoffset := Length.offset_of_decode hdecode
    refine ⟨Cursor.LeadsTo.refl c, hlo.trans_eq hoffset.symm, ?_⟩
    rw [hoffset, ← hhi]
    exact Nat.le_add_right _ _

theorem within_expectTag (expected : Tag) : Within lo hi (expectTag expected) := by
  refine within_offset fun start hlo hhi => within_octet.bind fun tag => ?_
  split_ifs
  · exact within_length
  · exact within_failAt hlo hhi

theorem within_integerContent (n : Nat) : Within lo hi (integerContent n) := by
  unfold integerContent
  split_ifs
  · exact within_fail _
  · exact within_fail _
  · exact (within_octets n).bind fun content => within_pure _

theorem within_integer : Within lo hi integer :=
  (within_expectTag _).bind within_integerContent

theorem within_unsignedContent (n max : Nat) : Within lo hi (unsignedContent n max) := by
  unfold unsignedContent
  split_ifs
  · exact within_fail _
  · refine within_offset fun start hlo hhi => (within_octets n).bind fun content => ?_
    split_ifs
    · exact within_failAt hlo hhi
    · exact within_pure _

theorem within_unsigned32Content (n : Nat) : Within lo hi (unsigned32Content n) := by
  refine (within_unsignedContent n 5).bind fun value => ?_
  split_ifs
  · exact within_pure _
  · exact within_fail _

theorem within_unsigned64Content (n : Nat) : Within lo hi (unsigned64Content n) :=
  (within_unsignedContent n 9).bind fun _ => within_pure _

theorem within_octetString : Within lo hi octetString := (within_expectTag _).bind within_octets

theorem within_null : Within lo hi null := by
  refine (within_expectTag _).bind fun n => ?_
  split_ifs
  · exact within_pure _
  · exact within_fail _

/-- What is refused in the content of an identifier has an offset of these
    octets, which have been taken when it is refused. -/
theorem within_oidContent (n : Nat) : Within lo hi (oidContent n) := by
  intro c hlo hhi
  by_cases hn : n ≤ c.remaining
  · have hoctets : octets n c = .ok (c.rest.take n) (c.skip n) := if_pos hn
    have hrun : oidContent n c = ofExcept (Oid.ofContent (c.rest.take n) c.offset) (c.skip n) :=
      bind_of_ok (x := octets n) hoctets
    rw [hrun]
    cases hoid : Oid.ofContent (c.rest.take n) c.offset with
    | ok oid => exact ⟨n, hn, rfl⟩
    | error e =>
      obtain ⟨hbegin, hend⟩ := Oid.offset_of_ofContent hoid
      rw [List.length_take_of_le hn] at hend
      rw [Cursor.stop] at hhi
      exact ⟨⟨n, hn, rfl⟩, hlo.trans hbegin, by omega⟩
  · have hoctets : octets n c = .error ⟨c.offset, .insufficientData n c.remaining⟩ c := if_neg hn
    have hrun : oidContent n c = .error ⟨c.offset, .insufficientData n c.remaining⟩ c :=
      bind_of_error (x := octets n) hoctets
    rw [hrun]
    exact within_fail (α := Oid) _ c hlo hhi

theorem within_oid : Within lo hi oid := (within_expectTag _).bind within_oidContent

theorem within_ipAddressContent (n : Nat) : Within lo hi (ipAddressContent n) := by
  intro c hlo hhi
  rw [ipAddressContent]
  split_ifs
  · -- Either there are four octets, or nothing is taken.
    rcases hrest : c.rest with _ | ⟨a, _ | ⟨b, _ | ⟨d, _ | ⟨e, rest⟩⟩⟩⟩
    case cons.cons.cons.cons =>
      refine ⟨4, ?_, rfl⟩
      rw [Cursor.remaining, hrest]
      exact Nat.le_add_left 4 _
    all_goals exact within_fail (α := Ipv4) _ c hlo hhi
  · exact within_fail (α := Ipv4) _ c hlo hhi

theorem within_split (n : Nat) : Within lo hi (split n) :=
  within_offset fun _ _ _ => (within_octets n).bind fun _ => within_pure _

theorem within_constructed (t : Tag) : Within lo hi (constructed t) :=
  (within_expectTag t).bind within_split

/-- A container that is split off lies in the one around it, and so does what is
    refused in it. -/
theorem within_split_inside (h : ∀ lo hi, Within lo hi r) (n : Nat) :
    Within lo hi (do let container ← split n; inside container r) := by
  intro c hlo hhi
  by_cases hn : n ≤ c.remaining
  · have hsplit : split n c = .ok ⟨c.offset, c.rest.take n⟩ (c.skip n) :=
      bind_of_ok (x := octets n) (if_pos hn)
    rw [bind_of_ok hsplit, inside]
    have hstop : (Cursor.mk c.offset (c.rest.take n)).stop = c.offset + n := by
      rw [Cursor.stop, Cursor.remaining, List.length_take_of_le hn]
    have hr := h lo (c.offset + n) ⟨c.offset, c.rest.take n⟩ hlo hstop
    cases hc : r ⟨c.offset, c.rest.take n⟩ with
    | ok a c' => exact ⟨n, hn, rfl⟩
    | error e c' =>
      rw [hc] at hr
      rw [Cursor.stop] at hhi
      exact ⟨⟨n, hn, rfl⟩, hr.2.1, hr.2.2.trans (by omega)⟩
  · have hsplit : split n c = .error ⟨c.offset, .insufficientData n c.remaining⟩ c :=
      bind_of_error (x := octets n) (if_neg hn)
    rw [bind_of_error hsplit]
    exact within_fail (α := α) _ c hlo hhi

/-- The same for a constructed element. -/
theorem within_inside (h : ∀ lo hi, Within lo hi r) (t : Tag) :
    Within lo hi (do let container ← constructed t; inside container r) := by
  unfold constructed
  rw [bind_assoc]
  exact (within_expectTag t).bind fun n => within_split_inside h n

/-- A container that is filled by the one inside it has nothing left behind that
    one. -/
theorem remaining_of_inside {c c' : Cursor} {n : Nat} {a : α}
    (h : (do
      expectRemaining n
      let container ← split n
      inside container r) c = .ok a c') : c'.remaining = 0 := by
  obtain ⟨_, t, hall, h⟩ := bind_eq_ok.1 h
  rw [expectRemaining] at hall
  split_ifs at hall with hn
  cases hall
  have hsplit : split n c = .ok ⟨c.offset, c.rest.take n⟩ (c.skip n) :=
    bind_of_ok (x := octets n) (if_pos hn.ge)
  rw [bind_of_ok hsplit, inside] at h
  split at h
  · cases h
    rw [Cursor.remaining_skip, hn, Nat.sub_self]
  · cases h

end Reader

end SnmpAgent
