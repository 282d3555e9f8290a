import SnmpAgent.Proofs.Ber.Positions
import SnmpAgent.Proofs.Message.Forms

/-!
# Where messages are refused

A message is an element around its body. If the element is exactly the octets
of the message, whatever is refused is refused in the body, at an offset behind
the header of the element and not behind the last octet.

* `Value.within_read`, `VarBind.within_readList`, `Pdu.within_read`: what is
  refused in a container has an offset of the container;
* `Message.offset_of_decode`: what is refused in a message has an offset of the message;
* `Message.Opens.decode_eq`: a message is read as its body is;
* `Message.Opens.refused_inside`: what is refused in a message is refused in
  its body.
-/

namespace SnmpAgent

variable {lo hi : Nat}

namespace Value

theorem within_readContent (n : Nat) (type : ValueType) : Within lo hi (readContent n type) := by
  have hmap : ∀ {α : Type} {r : Reader α} (g : α → Value), Within lo hi r →
      Within lo hi (do return g (← r)) := fun g h => h.bind fun _ => within_pure _
  cases type with
  | integer => exact hmap _ (Reader.within_integerContent n)
  | octetString => exact hmap _ (Reader.within_octets n)
  | objectIdentifier => exact hmap _ (Reader.within_oidContent n)
  | ipAddress => exact hmap _ (Reader.within_ipAddressContent n)
  | counter32 | gauge32 | timeTicks => exact hmap _ (Reader.within_unsigned32Content n)
  | counter64 => exact hmap _ (Reader.within_unsigned64Content n)
  | null | noSuchObject | noSuchInstance | endOfMibView => exact within_pure _

theorem within_read : Within lo hi read := by
  refine Reader.within_offset fun start hlo hhi => ?_
  refine Reader.within_octet.bind fun tag => Reader.within_length.bind fun n => ?_
  cases ValueType.ofTag? tag with
  | none => exact Reader.within_failAt hlo hhi
  | some type =>
    dsimp only
    split_ifs
    · exact Reader.within_failAt hlo hhi
    · exact Reader.within_failAt hlo hhi
    · exact within_readContent n type

end Value

namespace VarBind

theorem within_read : Within lo hi read := by
  refine Reader.within_inside (fun lo hi => ?_) Tag.sequence
  refine Reader.within_oid.bind fun oid => Value.within_read.bind fun value => ?_
  exact (Reader.within_expectRemaining 0).bind fun _ => within_pure _

theorem within_readUpTo (max room : Nat) : Within lo hi (readUpTo max room) := by
  induction room with
  | zero =>
    refine Reader.within_isEmpty.bind fun isEmpty => ?_
    split_ifs
    · exact within_pure _
    · exact Reader.within_fail _
  | succ room ih =>
    refine Reader.within_isEmpty.bind fun isEmpty => ?_
    split_ifs
    · exact within_pure _
    · exact within_read.bind fun v => ih.bind fun vs => within_pure _

theorem within_readList (max : Nat) : Within lo hi (readList max) :=
  Reader.within_inside (fun _ _ => within_readUpTo max max) Tag.sequence

end VarBind

theorem Pdu.within_read (max : Nat) : Within lo hi (read max) := by
  refine Reader.within_offset fun start hlo hhi => Reader.within_octet.bind fun tag => ?_
  cases PduType.ofTag? tag with
  | none => exact Reader.within_failAt hlo hhi
  | some type =>
    refine Reader.within_length.bind fun n => (Reader.within_expectRemaining n).bind fun _ => ?_
    refine Reader.within_split_inside (fun lo hi => ?_) n
    refine Reader.within_integer.bind fun requestId => Reader.within_integer.bind fun status => ?_
    refine Reader.within_integer.bind fun index => (VarBind.within_readList max).bind fun vs => ?_
    exact (Reader.within_expectRemaining 0).bind fun _ => within_pure _

/-- A PDU is read to the end of its container. -/
theorem Pdu.remaining_of_read {max : Nat} {c c' : Cursor} {p : Pdu} (h : read max c = .ok p c') :
    c'.remaining = 0 := by
  obtain ⟨start, s, -, h⟩ := bind_eq_ok.1 h
  obtain ⟨tag, t, -, h⟩ := bind_eq_ok.1 h
  cases htype : PduType.ofTag? tag with
  | none =>
    rw [htype] at h
    cases h
  | some type =>
    rw [htype] at h
    obtain ⟨n, u, -, h⟩ := bind_eq_ok.1 h
    exact Reader.remaining_of_inside h

namespace Message

/-! ## Bodies -/

/-- The body of a message: a version, a community and a PDU of at most `max`
    varbinds. -/
def readBody (max : Nat) : Reader Message := do
  let version ← readVersion
  let community ← readCommunity
  let pdu ← Pdu.read max
  return ⟨version, community, pdu⟩

/-- A message is a SEQUENCE that fills its octets exactly, with a body inside. -/
theorem read_eq (max : Nat) : read max = (do
    let n ← Reader.expectTag Tag.sequence
    Reader.expectRemaining n
    let content ← Reader.split n
    Reader.inside content (readBody max)) := rfl

theorem within_readBody (max : Nat) : Within lo hi (readBody max) := by
  have hversion : Within lo hi readVersion := by
    refine Reader.within_offset fun start hlo hhi => Reader.within_integer.bind fun code => ?_
    cases Version.ofCode? code with
    | none => exact Reader.within_failAt hlo hhi
    | some version => exact within_pure version
  have hcommunity : Within lo hi readCommunity := by
    refine Reader.within_offset fun start hlo hhi => ?_
    refine Reader.within_octetString.bind fun community => ?_
    split_ifs
    · exact Reader.within_failAt hlo hhi
    · exact within_pure community
  refine hversion.bind fun version => hcommunity.bind fun community => ?_
  exact (Pdu.within_read max).bind fun pdu => within_pure _

/-! ## Messages -/

theorem within_read (max : Nat) : Within lo hi (read max) := by
  rw [read_eq]
  refine (Reader.within_expectTag _).bind fun n => ?_
  refine (Reader.within_expectRemaining n).bind fun _ => ?_
  exact Reader.within_split_inside (fun _ _ => within_readBody max) n

/-- What is refused in some octets is refused at one of them, or right behind
    the last one. -/
theorem offset_of_decode {data : List UInt8} {max : Nat} {e : DecodeError}
    (h : decode data max = .error e) : e.offset ≤ data.length := by
  have hread := within_read max (Cursor.ofMessage data) (Nat.le_refl 0) (Nat.zero_add data.length)
  rw [decode] at h
  cases hc : read max (Cursor.ofMessage data) with
  | ok m c =>
    rw [hc] at h
    cases h
  | error e' c =>
    rw [hc] at h hread
    cases h
    exact hread.2.2

/-- Some octets pass for a message on the outside: they are the header of a
    SEQUENCE, up to which the tag and the length are read, and the content that
    the length declares. -/
structure Opens (p header content : List UInt8) : Prop where
  eq_append : p = header ++ content
  expectTag : Reader.expectTag Tag.sequence (Cursor.ofMessage p) =
    .ok content.length ⟨header.length, content⟩
  expectRemaining : Reader.expectRemaining content.length ⟨header.length, content⟩ =
    .ok () ⟨header.length, content⟩

/-- A tag and a form of the length of what follows pass for a message on the
    outside. -/
theorem opens_of_form {l content : List UInt8} (h : Length.Form l content.length) :
    Opens (Tag.sequence :: (l ++ content)) (Tag.sequence :: l) content where
  eq_append := rfl
  expectTag := by
    refine (Reader.recognises_expectTag Tag.sequence 0 _ _ _).2 ?_
    exact ⟨Tag.sequence :: l, content, ⟨l, h, rfl⟩, rfl, by rw [Nat.zero_add]⟩
  expectRemaining := if_pos rfl

/-- What passes for a message on the outside is read as its body is. -/
theorem Opens.decode_eq {p header content : List UInt8} (h : Opens p header content) (max : Nat) :
    decode p max = match readBody max ⟨header.length, content⟩ with
      | .ok m _ => .ok m
      | .error e _ => .error e := by
  have hsplit : Reader.split content.length ⟨header.length, content⟩ =
      .ok ⟨header.length, content⟩ ⟨header.length + content.length, []⟩ := by
    have htake := Reader.takes_octets content header.length []
    rw [List.append_nil] at htake
    exact bind_of_ok (x := Reader.octets content.length) htake
  rw [decode, read_eq, bind_of_ok h.expectTag, bind_of_ok h.expectRemaining, bind_of_ok hsplit,
    Reader.inside]
  cases readBody max ⟨header.length, content⟩ <;> rfl

/-- What is refused in such a message is refused in its body, behind the
    header. -/
theorem Opens.refused_inside {p header content : List UInt8} {max : Nat} {e : DecodeError}
    (h : Opens p header content) (he : decode p max = .error e) :
    (∃ c, readBody max ⟨header.length, content⟩ = .error e c) ∧
      header.length ≤ e.offset ∧ e.offset ≤ p.length := by
  have hwithin : Within header.length (header.length + content.length) (readBody max) :=
    within_readBody max
  have hbody := hwithin ⟨header.length, content⟩ (Nat.le_refl _) rfl
  -- The body begins behind the header, and so do the offsets of all that is refused in it.
  rw [h.decode_eq] at he
  rw [h.eq_append, List.length_append]
  cases hc : readBody max ⟨header.length, content⟩ with
  | ok m c =>
    rw [hc] at he
    cases he
  | error e' c =>
    rw [hc] at he hbody
    cases he
    exact ⟨⟨c, rfl⟩, hbody.2⟩

end Message

end SnmpAgent
