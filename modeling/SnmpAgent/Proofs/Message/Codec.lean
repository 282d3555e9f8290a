import SnmpAgent.Proofs.Message.Values
import SnmpAgent.Message
import Mathlib.Data.List.Forall2

/-!
# Messages on the wire

A message is a frame of version, community, type and three numbers around the
varbinds, which stand in it as they were encoded. The frame is the same
whether the varbinds are written from values or copied from encoded ones, so
it is described on its own, as a function of the encoded varbinds.

* `VarBind.element?`, `Message.frame?`: the octets of a varbind and of a
  message, where their parts can be written;
* `VarBind.writes_write`, `Message.writes_write`: these are what is written;
* `VarBind.takes_read`, `Message.decode_frame`: they are read back;
* `Message.decode_encode`: what is written for a message is read as that message;
* `Message.received_of_decode`: what is known of a message that was read.
-/

namespace SnmpAgent

open Integer

/-- Portions of octets stand one after another exactly if there are all. -/
theorem concat?_eq_some {os : List (Option (List UInt8))} {o : List UInt8} :
    concat? os = some o ↔
      ∃ items : List (List UInt8), os = items.map some ∧ o = items.flatten := by
  induction os generalizing o with
  | nil =>
    simp only [concat?, List.foldr_nil, Option.some.injEq]
    constructor
    · rintro rfl
      exact ⟨[], rfl, rfl⟩
    · rintro ⟨items, hi, rfl⟩
      rw [List.map_eq_nil_iff.1 hi.symm]
      rfl
  | cons a os ih =>
    rw [concat?, List.foldr_cons, append?_eq_some]
    constructor
    · rintro ⟨x, y, rfl, hy, rfl⟩
      obtain ⟨items, rfl, rfl⟩ := ih.1 hy
      exact ⟨x :: items, rfl, rfl⟩
    · rintro ⟨items, hi, rfl⟩
      cases items with
      | nil => cases hi
      | cons x items =>
        obtain ⟨rfl, rfl⟩ := List.cons.inj hi
        exact ⟨x, items.flatten, rfl, ih.2 ⟨items, rfl, rfl⟩, rfl⟩

/-! ## Varbinds -/

namespace VarBind

/-- The element of a varbind: a name in front of an encoded value. -/
def element? (oid : Oid) (value : Option (List UInt8)) : Option (List UInt8) :=
  (append? (Element.octets? Tag.objectIdentifier oid.content) value).bind
    (Element.octets? Tag.sequence)

theorem writes_write (v : VarBind) :
    Writes v.write (element? v.oid (Element.octets? v.value.tag v.value.content)) :=
  Writer.writes_constructed _ (v.value.writes_write.bind (Writer.writes_element _ _))

/-- The element of a valid name and a legible value is read as both, repacked. -/
theorem takes_read {oid : Oid} {w : Value} {value o : List UInt8}
    (ho : element? oid (some value) = some o) (hoid : oid.validate = .ok ()) (hw : w.Legible)
    (hv : w.tlv = .ok value) : Takes read o ⟨oid.repacked, w.repacked⟩ := by
  obtain ⟨content, hc, ho⟩ := Option.bind_eq_some_iff.1 ho
  obtain ⟨name, value', hname, hvalue, rfl⟩ := append?_eq_some.1 hc
  cases hvalue
  refine Reader.takes_inside ho ?_
  refine Fills.bind (Reader.takes_primitive hname (Value.takes_oidContent hoid)) ?_
  have hrest := Fills.bind (f := fun w => do
    Reader.expectRemaining 0
    return (⟨oid.repacked, w⟩ : VarBind)) (Value.takes_read hw hv)
    (Reader.fills_expectRemaining _)
  rwa [List.append_nil] at hrest

/-- The varbinds that are read back as they are. -/
def Canonical (v : VarBind) : Prop := v.oid.Canonical ∧ v.value.Canonical

/-- The element of a canonical varbind is read as that varbind. -/
theorem Canonical.takes_read {v : VarBind} (h : v.Canonical) {o : List UInt8}
    (ho : element? v.oid (Element.octets? v.value.tag v.value.content) = some o) :
    Takes read o v := by
  obtain ⟨content, hcontent, -⟩ := Option.bind_eq_some_iff.1 ho
  obtain ⟨name, value, -, hvalue, -⟩ := append?_eq_some.1 hcontent
  rw [hvalue] at ho
  have hread := VarBind.takes_read ho h.1.validate h.2.legible (Value.tlv_eq_ok.2 hvalue)
  rwa [h.1.repacked_eq, h.2.repacked_eq] at hread

/-- The name of a varbind that was read is canonical. -/
theorem ensures_read : Ensures read (·.oid.Canonical) := by
  refine Ensures.of_bind fun container => Reader.ensures_inside ?_
  have hoid : Ensures Reader.oid Oid.Canonical :=
    Ensures.of_bind fun n => Ensures.of_bind fun start => Ensures.of_bind fun content =>
      Reader.ensures_ofExcept fun o ho => Oid.canonical_of_ofContent ho
  refine hoid.bind fun o ho => Ensures.of_bind fun w => Ensures.of_bind fun _ => ?_
  exact ensures_pure ho

/-- As many varbinds are read as there is room for, at most. -/
theorem ensures_readUpTo (max room : Nat) :
    Ensures (readUpTo max room) fun vs => vs.length ≤ room ∧ ∀ v ∈ vs, v.oid.Canonical := by
  induction room with
  | zero =>
    refine Ensures.of_bind fun done => ?_
    split
    · exact ensures_pure ⟨Nat.le_refl 0, by simp⟩
    · exact Reader.ensures_fail _
  | succ room ih =>
    refine Ensures.of_bind fun done => ?_
    split
    · exact ensures_pure ⟨Nat.zero_le _, by simp⟩
    · refine ensures_read.bind fun v hv => ih.bind fun vs hvs => ?_
      exact ensures_pure ⟨Nat.succ_le_succ hvs.1, List.forall_mem_cons.2 ⟨hv, hvs.2⟩⟩

/-- No varbind is without octets. -/
theorem element?_ne_nil {oid : Oid} {value : Option (List UInt8)} {o : List UInt8}
    (h : element? oid value = some o) : o ≠ [] := by
  obtain ⟨content, -, ho⟩ := Option.bind_eq_some_iff.1 h
  obtain ⟨l, -, rfl⟩ := Element.octets?_eq_some.1 ho
  exact List.cons_ne_nil _ _

/-- The elements of canonical varbinds are read, one by one, as these varbinds. -/
theorem forall₂_takes_read {vs : List VarBind} {items : List (List UInt8)}
    (h : ∀ v ∈ vs, v.Canonical) (hitems : (vs.map fun v =>
      element? v.oid (Element.octets? v.value.tag v.value.content)) = items.map some) :
    List.Forall₂ (fun o v => o ≠ [] ∧ Takes read o v) items vs := by
  rw [← List.forall₂_eq_eq_eq, List.forall₂_map_left_iff, List.forall₂_map_right_iff] at hitems
  have hboth := (List.forall₂_and_left vs items).2 ⟨h, hitems⟩
  exact (hboth.imp fun v o hv => ⟨element?_ne_nil hv.2, hv.1.takes_read hv.2⟩).flip

/-- Varbinds that fill a container one after another are read, as many as there
    is room for. -/
theorem fills_readUpTo (max : Nat) {items : List (List UInt8)} {vs : List VarBind}
    (h : List.Forall₂ (fun o v => o ≠ [] ∧ Takes read o v) items vs) {room : Nat}
    (hroom : items.length ≤ room) : Fills (readUpTo max room) items.flatten vs := by
  induction h generalizing room with
  | nil =>
    intro offset
    cases room <;> exact ⟨_, rfl⟩
  | @cons o v items vs hov _ ih =>
    obtain ⟨room, rfl⟩ : ∃ r, room = r + 1 := ⟨room - 1, by rw [List.length_cons] at hroom; omega⟩
    intro offset
    -- The list goes on as long as octets are left, and no item is without any.
    have hne : ¬(o ++ items.flatten).isEmpty := by simp [hov.1]
    obtain ⟨c, hc⟩ := ih (Nat.le_of_succ_le_succ hroom) (offset + o.length)
    refine ⟨c, ?_⟩
    rw [readUpTo, List.flatten_cons, bind_of_ok (x := Reader.isEmpty) rfl, if_neg hne,
      bind_of_ok (hov.2 offset items.flatten), bind_of_ok hc]
    rfl

/-- The element of a list of varbinds is read as what fills it. -/
theorem takes_readList {max : Nat} {content o : List UInt8} {vs : List VarBind}
    (ho : Element.octets? Tag.sequence content = some o)
    (h : Fills (readUpTo max max) content vs) : Takes (readList max) o vs :=
  Reader.takes_inside ho h

end VarBind

/-! ## Messages -/

/-- The element of an INTEGER. -/
def Element.integer? (v : Int32) : Option (List UInt8) :=
  octets? Tag.integer (twosComplement v.toInt)

theorem Element.writes_integer (v : Int32) : Writes (Writer.integer v) (integer? v) := by
  rw [Writer.integer_eq]
  exact Writer.writes_element _ _

namespace Pdu

variable {p : Pdu} {list o : List UInt8} {list? : Option (List UInt8)} {vs : List VarBind}

/-- The element of a PDU around encoded varbinds. -/
def frame? (p : Pdu) (list? : Option (List UInt8)) : Option (List UInt8) :=
  (append? (append? (append? (Element.integer? p.requestId) (Element.integer? p.errorStatus))
    (Element.integer? p.errorIndex)) (list?.bind (Element.octets? Tag.sequence))).bind
    (Element.octets? p.type.tag)

theorem writes_frame {list : Writer} (h : Writes list list?) :
    Writes (Writer.constructed p.type.tag do
      Writer.sequence list
      Writer.integer p.errorIndex
      Writer.integer p.errorStatus
      Writer.integer p.requestId) (p.frame? list?) := by
  refine Writer.writes_constructed _ ?_
  refine (Writer.writes_constructed _ h).bind ?_
  refine Writes.bind (Element.writes_integer _) ?_
  exact (Element.writes_integer _).bind (Element.writes_integer _)

/-- The element of a PDU is read as that PDU, with what is read in its list of
    varbinds. -/
theorem fills_read {max : Nat} (ho : p.frame? (some list) = some o)
    (hlist : Fills (VarBind.readUpTo max max) list vs) :
    Fills (read max) o { p with varbinds := vs } := by
  obtain ⟨content, hc, ho⟩ := Option.bind_eq_some_iff.1 ho
  obtain ⟨l, hl, rfl⟩ := Element.octets?_eq_some.1 ho
  obtain ⟨numbers, varbinds, hnumbers, hvarbinds, rfl⟩ := append?_eq_some.1 hc
  obtain ⟨pair, index, hpair, hindex, rfl⟩ := append?_eq_some.1 hnumbers
  obtain ⟨id, status, hid, hstatus, rfl⟩ := append?_eq_some.1 hpair
  refine Reader.fills_offset fun start => ?_
  refine Fills.bind (Reader.takes_octet _) ?_
  simp only [PduType.ofTag?_tag]
  refine Fills.bind (Reader.takes_length hl) ?_
  refine Reader.fills_inside ?_
  rw [List.append_assoc, List.append_assoc]
  refine Fills.bind (Reader.takes_integer hid) ?_
  refine Fills.bind (Reader.takes_integer hstatus) ?_
  refine Fills.bind (Reader.takes_integer hindex) ?_
  rw [← List.append_nil varbinds]
  exact Fills.bind (VarBind.takes_readList hvarbinds hlist) (Reader.fills_expectRemaining _)

end Pdu

namespace Message

variable {m : Message} {list o : List UInt8} {list? : Option (List UInt8)} {vs : List VarBind}

/-- The octets of a message around encoded varbinds. -/
def frame? (m : Message) (list? : Option (List UInt8)) : Option (List UInt8) :=
  (append? (append? (Element.integer? m.version.code)
    (Element.octets? Tag.octetString m.community)) (m.pdu.frame? list?)).bind
    (Element.octets? Tag.sequence)

/-- There is no message around varbinds that cannot be written. -/
theorem frame?_none (m : Message) : m.frame? none = none := by
  rw [frame?, Pdu.frame?, Option.bind_none, append?_none, Option.bind_none, append?_none,
    Option.bind_none]

/-- A message around portions of octets holds them all. -/
theorem frame?_concat?_eq_some {os : List (Option (List UInt8))} :
    m.frame? (concat? os) = some o ↔
      ∃ items : List (List UInt8), os = items.map some ∧ m.frame? (some items.flatten) = some o := by
  constructor
  · intro h
    cases hc : concat? os with
    | none =>
      rw [hc, frame?_none] at h
      cases h
    | some list =>
      obtain ⟨items, hitems, rfl⟩ := concat?_eq_some.1 hc
      exact ⟨items, hitems, hc ▸ h⟩
  · rintro ⟨items, hitems, h⟩
    rwa [concat?_eq_some.2 ⟨items, hitems, rfl⟩]

theorem writes_frame {list : Writer} (h : Writes list list?) :
    Writes (Writer.sequence do
      Writer.constructed m.pdu.type.tag do
        Writer.sequence list
        Writer.integer m.pdu.errorIndex
        Writer.integer m.pdu.errorStatus
        Writer.integer m.pdu.requestId
      Writer.octetString m.community
      Writer.integer m.version.code) (m.frame? list?) := by
  refine Writer.writes_constructed _ ?_
  refine (Pdu.writes_frame h).bind ?_
  exact (Writer.writes_element _ _).bind (Element.writes_integer _)

/-- The octets of a message. -/
def octets? (m : Message) : Option (List UInt8) :=
  m.frame? (concat? (m.pdu.varbinds.map fun v =>
    VarBind.element? v.oid (Element.octets? v.value.tag v.value.content)))

theorem writes_write (m : Message) : Writes m.write m.octets? :=
  writes_frame (Writer.writes_inOrder fun v _ => v.writes_write)

theorem takes_readVersion {v : Version} (ho : Element.integer? v.code = some o) :
    Takes readVersion o v := by
  refine Reader.takes_offset fun start => ?_
  rw [← List.append_nil o]
  refine Takes.bind (Reader.takes_integer ho) ?_
  cases v <;> exact takes_pure _

/-- The communities that a message may carry. -/
def CommunityFits (community : List UInt8) : Prop :=
  community ≠ [] ∧ community.length ≤ maxCommunityLength

theorem takes_readCommunity {community : List UInt8} (h : CommunityFits community)
    (ho : Element.octets? Tag.octetString community = some o) :
    Takes readCommunity o community := by
  refine Reader.takes_offset fun start => ?_
  rw [← List.append_nil o]
  refine Takes.bind (Reader.takes_primitive ho (Reader.takes_octets community)) ?_
  have hfits : ¬(community.isEmpty ∨ maxCommunityLength < community.length) := by
    rintro (hempty | hlong)
    · exact h.1 (List.isEmpty_iff.1 hempty)
    · exact absurd h.2 (Nat.not_le.2 hlong)
  rw [if_neg hfits]
  exact takes_pure _

/-- The octets of a message are read as that message, with what is read in its
    list of varbinds. -/
theorem decode_frame {max : Nat} (hm : CommunityFits m.community)
    (ho : m.frame? (some list) = some o) (hlist : Fills (VarBind.readUpTo max max) list vs) :
    decode o max = .ok { m with pdu := { m.pdu with varbinds := vs } } := by
  obtain ⟨content, hc, ho⟩ := Option.bind_eq_some_iff.1 ho
  obtain ⟨l, hl, rfl⟩ := Element.octets?_eq_some.1 ho
  obtain ⟨header, pdu, hheader, hpdu, rfl⟩ := append?_eq_some.1 hc
  obtain ⟨version, community, hversion, hcommunity, rfl⟩ := append?_eq_some.1 hheader
  have hread : Fills (read max) (Tag.sequence :: (l ++ (version ++ community ++ pdu)))
      { m with pdu := { m.pdu with varbinds := vs } } := by
    refine Fills.bind (Reader.takes_expectTag hl) ?_
    refine Reader.fills_inside ?_
    rw [List.append_assoc]
    refine Fills.bind (takes_readVersion hversion) ?_
    refine Fills.bind (takes_readCommunity hm hcommunity) ?_
    exact (Pdu.fills_read hpdu hlist).map (Message.mk m.version m.community)
  obtain ⟨c, hc⟩ := hread 0
  rw [decode, Cursor.ofMessage, hc]

/-- What is written for a message is read as that message, if its community has
    an acceptable length, there are no more varbinds than may be read, and all
    names come back as they are. -/
theorem decode_encode {max : Nat} {limit : Option Nat} (hcommunity : CommunityFits m.community)
    (hcount : m.pdu.varbinds.length ≤ max) (hcanonical : ∀ v ∈ m.pdu.varbinds, v.Canonical)
    (h : m.encode limit = .ok o) : decode o max = .ok m := by
  have ho : m.octets? = some o := (m.writes_write.run_eq_ok_iff.1 h).1
  obtain ⟨items, hitems, hframe⟩ := frame?_concat?_eq_some.1 ho
  have hread := VarBind.forall₂_takes_read hcanonical hitems
  have hlist := VarBind.fills_readUpTo max hread (hread.length_eq ▸ hcount)
  exact decode_frame hcommunity hframe hlist

/-- A reply with a string, a name, negative and large numbers, and the end of
    the variables. -/
def mixedReply : Message :=
  ⟨.v2c, [0x70, 0x75, 0x62, 0x6C, 0x69, 0x63], .response (-2147483648) .noError 0
    [⟨⟨[1, 3, 6, 1, 4, 1, 4294967295]⟩, .octetString (List.replicate 300 0x5A)⟩,
      ⟨⟨[2, 175, 128]⟩, .objectIdentifier ⟨[0, 39]⟩⟩,
      ⟨⟨[1, 3, 6]⟩, .counter64 18446744073709551615⟩,
      ⟨⟨[1, 3, 7]⟩, .integer (-129)⟩,
      ⟨⟨[1, 3, 8]⟩, .endOfMibView⟩]⟩

/-- That reply is read from what is written for it. -/
theorem decode_encode_mixedReply : ∃ o, mixedReply.encode (some maxPacketSize) = .ok o ∧
    decode o 5 = .ok mixedReply := by
  obtain ⟨o, ho⟩ := exists_eq_ok_of_isOk (x := mixedReply.encode (some maxPacketSize))
    (by decide +kernel)
  have hcommunity : CommunityFits mixedReply.community := ⟨by decide, by decide⟩
  have hcanonical : ∀ v ∈ mixedReply.pdu.varbinds, v.Canonical := by
    simp only [mixedReply, Pdu.response, List.forall_mem_cons]
    exact ⟨⟨⟨1, 3, _, rfl, by decide, .inl (by decide)⟩, trivial⟩,
      ⟨⟨2, 175, _, rfl, by decide, .inr (by decide)⟩, ⟨0, 39, _, rfl, by decide, .inl (by decide)⟩⟩,
      ⟨⟨1, 3, _, rfl, by decide, .inl (by decide)⟩, trivial⟩,
      ⟨⟨1, 3, _, rfl, by decide, .inl (by decide)⟩, trivial⟩,
      ⟨⟨1, 3, _, rfl, by decide, .inl (by decide)⟩, trivial⟩, List.forall_mem_nil _⟩
  exact ⟨o, ho, decode_encode hcommunity (by decide) hcanonical ho⟩

/-! ## Messages that were read -/

/-- What is known of a message that was read with room for `max` varbinds. -/
structure Received (max : Nat) (m : Message) : Prop where
  community : CommunityFits m.community
  count : m.pdu.varbinds.length ≤ max
  /-- All names are read back as they are. -/
  names : ∀ v ∈ m.pdu.varbinds, v.oid.Canonical

theorem ensures_readCommunity : Ensures readCommunity CommunityFits := by
  refine Ensures.of_bind fun start => Ensures.of_bind fun community => ?_
  split
  · exact Reader.ensures_failAt _ _
  · rename_i h
    rw [not_or, List.isEmpty_iff, Nat.not_lt] at h
    exact ensures_pure h

theorem ensures_read (max : Nat) : Ensures (read max) (Received max) := by
  refine Ensures.of_bind fun n => Ensures.of_bind fun _ => Ensures.of_bind fun container =>
    Reader.ensures_inside ?_
  refine Ensures.of_bind fun version => ensures_readCommunity.bind fun community hcommunity => ?_
  have hpdu : Ensures (Pdu.read max) fun p =>
      p.varbinds.length ≤ max ∧ ∀ v ∈ p.varbinds, v.oid.Canonical := by
    refine Ensures.of_bind fun start => Ensures.of_bind fun tag => ?_
    split
    · exact Reader.ensures_failAt _ _
    · refine Ensures.of_bind fun n => Ensures.of_bind fun _ => Ensures.of_bind fun container =>
        Reader.ensures_inside ?_
      refine Ensures.of_bind fun id => Ensures.of_bind fun status => Ensures.of_bind fun index => ?_
      have hlist := VarBind.ensures_readUpTo max max
      refine Ensures.bind (Ensures.of_bind fun container => Reader.ensures_inside hlist) ?_
      exact fun vs hvs => Ensures.of_bind fun _ => ensures_pure hvs
  exact hpdu.bind fun p hp => ensures_pure ⟨hcommunity, hp.1, hp.2⟩

theorem received_of_decode {data : List UInt8} {max : Nat} (h : decode data max = .ok m) :
    m.Received max := by
  rw [decode] at h
  split at h
  · rename_i hread
    cases h
    exact ensures_read max _ _ _ hread
  · cases h

end Message

end SnmpAgent
