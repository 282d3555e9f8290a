import SnmpAgent.Proofs.Ber.Forms
import SnmpAgent.Proofs.Oid.Forms
import SnmpAgent.Proofs.Message.Codec

/-!
# The forms of messages

What a message is encoded as is told by a grammar: a SEQUENCE is filled by a
version, a community and a PDU, a PDU by three numbers and a SEQUENCE of
varbinds, and a varbind by a name and a value. Lengths and numbers need not be
as short as possible, so a message has several *forms*. The reader accepts
exactly these forms, and of each it makes the message that it is a form of.

* `Value.Form`, `VarBind.Form`, `Pdu.Form`, `Message.Form`: the grammar;
* `Value.recognises_read`, `VarBind.recognises_read`, `Pdu.recognisesAll_read`,
  `Message.recognisesAll_read`: the readers accept its forms and nothing else;
* `Message.decode_eq_ok_iff_form`: so does the reader of whole messages, and it
  refuses every beginning and every continuation of what it accepts.
-/

namespace SnmpAgent

/-! ## Values -/

namespace ValueType

/-- A type is found by its tag only. -/
theorem ofTag?_eq_some_iff {t : Tag} {type : ValueType} : ofTag? t = some type ↔ type.tag = t := by
  constructor
  · intro h
    simpa using List.find?_some h
  · rintro rfl
    exact ofTag?_tag type

end ValueType

namespace Value

/-- The contents of the elements of values: a number, an identifier, the octets
    of a string or of an address, or nothing. -/
def ContentForm (content : List UInt8) : Value → Prop
  | .integer v => Integer.Form content v
  | .octetString octets => content = octets
  | .objectIdentifier oid => Oid.Form content oid
  | .ipAddress address => content = address.octets
  | .counter32 v | .gauge32 v | .timeTicks v => Integer.UnsignedForm 5 content v.toNat
  | .counter64 v => Integer.UnsignedForm 9 content v.toNat
  | .null | .noSuchObject | .noSuchInstance | .endOfMibView => content = []

/-- The forms of a value: an element with the tag of its type. -/
def Form (o : List UInt8) (v : Value) : Prop := Element.Form v.tag ContentForm o v

/-- A marker has no content. -/
theorem ContentForm.eq_nil {content : List UInt8} {v : Value} (h : ContentForm content v)
    (hmarker : v.type.isMarker) : content = [] := by
  cases v with
  | null | noSuchObject | noSuchInstance | endOfMibView => exact h
  | _ => cases hmarker

/-- All other values have some, except perhaps for a string of octets. -/
theorem ContentForm.ne_nil {content : List UInt8} {v : Value} (h : ContentForm content v)
    (hmarker : ¬v.type.isMarker) (hstring : v.type ≠ .octetString) : content ≠ [] := by
  cases v with
  | integer => exact Integer.Form.ne_nil h
  | octetString => exact absurd rfl hstring
  | objectIdentifier => exact Oid.Form.ne_nil h
  | ipAddress address => exact ne_of_eq_of_ne h (List.cons_ne_nil _ _)
  | counter32 | gauge32 | timeTicks | counter64 => exact Integer.UnsignedForm.ne_nil h
  | null | noSuchObject | noSuchInstance | endOfMibView => exact absurd rfl hmarker

theorem recognises_oidContent (n : Nat) : Recognises (Reader.oidContent n)
    fun content oid => content.length = n ∧ Oid.Form content oid := by
  refine Reader.recognises_offset fun start => ?_
  have hread : ∀ content, Recognises (Reader.ofExcept (Oid.ofContent content start))
      fun o oid => o = [] ∧ Oid.Form content oid := fun content =>
    (Reader.recognises_ofExcept _).congr fun o oid =>
      and_congr_right fun _ => Oid.ofContent_eq_ok_iff
  refine ((Reader.recognises_octets n).bind hread).congr fun content oid => ?_
  constructor
  · rintro ⟨_, o, _, ⟨hn, rfl⟩, ⟨rfl, hoid⟩, rfl⟩
    rw [List.append_nil]
    exact ⟨hn, hoid⟩
  · rintro ⟨hn, hoid⟩
    exact ⟨content, content, [], ⟨hn, rfl⟩, ⟨rfl, hoid⟩, (List.append_nil content).symm⟩

theorem recognises_ipAddressContent (n : Nat) : Recognises (Reader.ipAddressContent n)
    fun content address => content.length = n ∧ content = address.octets := by
  intro offset data address c
  rw [Reader.ipAddressContent]
  split_ifs with hn
  · subst hn
    constructor
    · intro h
      split at h
      · rename_i a b d e rest hdata
        obtain rfl : data = a :: b :: d :: e :: rest := hdata
        cases h
        exact ⟨[a, b, d, e], rest, ⟨rfl, rfl⟩, rfl, rfl⟩
      · cases h
    · rintro ⟨_, rest, ⟨-, rfl⟩, rfl, rfl⟩
      rfl
  · refine iff_of_false (fun h => by cases h) ?_
    rintro ⟨_, rest, ⟨hlength, rfl⟩, -⟩
    exact hn hlength.symm

/-- A reader of what the values of one type hold reads their contents. -/
theorem recognises_content {α : Type} {r : Reader α} {F : List UInt8 → α → Prop} {n : Nat}
    {type : ValueType} {make : α → Value}
    (hr : Recognises r fun content a => content.length = n ∧ F content a)
    (hmake : ∀ content v, v.type = type ∧ ContentForm content v ↔ ∃ a, F content a ∧ make a = v) :
    Recognises (do return make (← r))
      fun content v => content.length = n ∧ v.type = type ∧ ContentForm content v := by
  refine (hr.map make).congr fun content v => ?_
  rw [hmake]
  constructor
  · rintro ⟨a, ⟨hn, ha⟩, hv⟩
    exact ⟨hn, a, ha, hv⟩
  · rintro ⟨hn, a, ha, hv⟩
    exact ⟨a, ⟨hn, ha⟩, hv⟩

/-- A marker is read from nothing. -/
theorem recognises_marker {marker : Value}
    (hmarker : ∀ content v, v.type = marker.type ∧ ContentForm content v ↔
      content = [] ∧ marker = v) :
    Recognises (pure marker)
      fun content v => content.length = 0 ∧ v.type = marker.type ∧ ContentForm content v := by
  refine (recognises_pure marker).congr fun content v => ?_
  rw [hmarker, List.length_eq_zero_iff, and_self_left]

/-- The content of a value of a known type is read, for a marker from no
    octets. -/
theorem recognises_readContent {n : Nat} {type : ValueType} (h : type.isMarker → n = 0) :
    Recognises (readContent n type)
      fun content v => content.length = n ∧ v.type = type ∧ ContentForm content v := by
  cases type with
  | integer =>
    refine recognises_content (Reader.recognises_integerContent n) fun content v => ?_
    cases v <;> simp [Value.type, ContentForm]
  | octetString =>
    refine recognises_content (Reader.recognises_octets n) fun content v => ?_
    cases v <;> simp [Value.type, ContentForm]
  | objectIdentifier =>
    refine recognises_content (recognises_oidContent n) fun content v => ?_
    cases v <;> simp [Value.type, ContentForm]
  | ipAddress =>
    refine recognises_content (recognises_ipAddressContent n) fun content v => ?_
    cases v <;> simp [Value.type, ContentForm]
  | counter32 | gauge32 | timeTicks =>
    refine recognises_content (Reader.recognises_unsigned32Content n) fun content v => ?_
    cases v <;> simp [Value.type, ContentForm]
  | counter64 =>
    refine recognises_content (Reader.recognises_unsigned64Content n) fun content v => ?_
    cases v <;> simp [Value.type, ContentForm]
  | null | noSuchObject | noSuchInstance | endOfMibView =>
    rw [h rfl]
    refine recognises_marker fun content v => ?_
    cases v <;> simp [Value.type, ContentForm]

/-- Values are read from their forms and from nothing else. -/
theorem recognises_read : Recognises read Form := by
  refine Reader.recognises_offset fun start => ?_
  -- Behind the tag of a type stand a length and the content of a value of that type.
  refine (Reader.recognises_octet.bind fun t => Reader.recognises_length.bind
    (G := fun n content v => content.length = n ∧ v.tag = t ∧ ContentForm content v)
    fun n => ?_).congr fun o v => ?_
  · cases htype : ValueType.ofTag? t with
    | none =>
      refine (Reader.recognises_failAt _ _).congr fun content v => iff_of_false id ?_
      rintro ⟨-, htag, -⟩
      rw [ValueType.ofTag?_eq_some_iff.2 htag] at htype
      cases htype
    | some type =>
      obtain rfl := ValueType.ofTag?_eq_some_iff.1 htype
      have htag : ∀ v : Value, v.tag = type.tag → v.type = type := by
        intro v hv
        rw [ValueType.ofTag?_eq_some_iff.2 hv] at htype
        exact Option.some.inj htype
      dsimp only
      split_ifs with hlong hempty
      · refine (Reader.recognises_failAt _ _).congr fun content v => iff_of_false id ?_
        rintro ⟨rfl, hv, hcontent⟩
        rw [hcontent.eq_nil (htag v hv ▸ hlong.1)] at hlong
        exact hlong.2 rfl
      · refine (Reader.recognises_failAt _ _).congr fun content v => iff_of_false id ?_
        rintro ⟨rfl, hv, hcontent⟩
        rw [← htag v hv] at hempty
        exact hcontent.ne_nil hempty.1 hempty.2.2 (List.length_eq_zero_iff.1 hempty.2.1)
      · refine (recognises_readContent fun hmarker => ?_).congr fun content v => ?_
        · by_contra hn
          exact hlong ⟨hmarker, hn⟩
        · exact and_congr_right fun _ => and_congr_left fun _ => ⟨congrArg ValueType.tag, htag v⟩
  · constructor
    · rintro ⟨t, _, _, rfl, ⟨n, l, content, hl, ⟨rfl, rfl, hcontent⟩, rfl⟩, rfl⟩
      rw [List.singleton_append]
      exact .mk hl hcontent
    · rintro ⟨hl, hcontent⟩
      exact ⟨v.tag, [v.tag], _, rfl, ⟨_, _, _, hl, ⟨rfl, rfl, hcontent⟩, rfl⟩, rfl⟩

end Value

/-! ## Varbinds -/

namespace VarBind

/-- The contents of the elements of varbinds: a name and a value. -/
inductive ContentForm : List UInt8 → VarBind → Prop where
  | mk {name value : List UInt8} {v : VarBind}
      (hname : Element.Form Tag.objectIdentifier Oid.Form name v.oid)
      (hvalue : Value.Form value v.value) : ContentForm (name ++ value) v

/-- The forms of a varbind. -/
def Form (o : List UInt8) (v : VarBind) : Prop := Element.Form Tag.sequence ContentForm o v

/-- The contents of the elements of lists of at most `max` varbinds. -/
inductive ListForm (max : Nat) : List UInt8 → List VarBind → Prop where
  | mk {os : List (List UInt8)} {vs : List VarBind} (hos : List.Forall₂ Form os vs)
      (hlength : vs.length ≤ max) : ListForm max os.flatten vs

theorem Form.ne_nil {o : List UInt8} {v : VarBind} (h : Form o v) : o ≠ [] := by
  obtain ⟨-, -⟩ := h
  exact List.cons_ne_nil _ _

/-- Without octets there are no varbinds. -/
theorem listForm_nil_iff {max : Nat} {vs : List VarBind} : ListForm max [] vs ↔ vs = [] := by
  constructor
  · generalize ho : ([] : List UInt8) = o
    rintro ⟨hos, -⟩
    cases hos with
    | nil => rfl
    | cons hv _ => exact absurd (List.append_eq_nil_iff.1 ho.symm).1 hv.ne_nil
  · rintro rfl
    exact ListForm.mk .nil (Nat.zero_le max)

/-- Without room there are no octets. -/
theorem ListForm.eq_nil {o : List UInt8} {vs : List VarBind} (h : ListForm 0 o vs) : o = [] := by
  obtain ⟨hos, hlength⟩ := h
  rw [List.length_eq_zero_iff.1 (Nat.le_zero.1 hlength)] at hos
  cases hos
  rfl

/-- With octets and room there is a first varbind. -/
theorem listForm_succ_iff {room : Nat} {o : List UInt8} (ho : o ≠ []) {vs : List VarBind} :
    ListForm (room + 1) o vs ↔ ∃ v o₁ o₂, Form o₁ v ∧
      (∃ vs', ListForm room o₂ vs' ∧ v :: vs' = vs) ∧ o = o₁ ++ o₂ := by
  constructor
  · rintro ⟨_ | ⟨hv, hos⟩, hlength⟩
    · exact absurd rfl ho
    · exact ⟨_, _, _, hv, ⟨_, .mk hos (Nat.le_of_succ_le_succ hlength), rfl⟩, rfl⟩
  · rintro ⟨v, o₁, _, hv, ⟨_, ⟨hos, hlength⟩, rfl⟩, rfl⟩
    exact ListForm.mk (.cons hv hos) (Nat.succ_le_succ hlength)

/-- Varbinds are read from their forms and from nothing else. -/
theorem recognises_read : Recognises read Form := by
  refine Reader.recognises_inside ?_
  have hname : Recognises Reader.oid (Element.Form Tag.objectIdentifier Oid.Form) :=
    Reader.recognises_element Value.recognises_oidContent
  refine (RecognisesAll.bind hname fun oid => RecognisesAll.bind Value.recognises_read fun w =>
    Reader.recognisesAll_expectRemaining (⟨oid, w⟩ : VarBind)).congr fun content v => ?_
  constructor
  · rintro ⟨oid, name, _, hoid, ⟨w, value, _, hw, ⟨rfl, rfl⟩, rfl⟩, rfl⟩
    rw [List.append_nil]
    exact .mk hoid hw
  · rintro ⟨hname, hvalue⟩
    exact ⟨_, _, _, hname, ⟨_, _, [], hvalue, ⟨rfl, rfl⟩, (List.append_nil _).symm⟩, rfl⟩

/-- Up to the end of a container, as many varbinds are read as there is room
    for. -/
theorem recognisesAll_readUpTo (max room : Nat) :
    RecognisesAll (readUpTo max room) (ListForm room) := by
  induction room with
  | zero =>
    refine (Reader.recognisesAll_isEmpty (recognisesAll_pure _)
      (Reader.recognisesAll_fail _)).congr fun o vs => ?_
    split_ifs with ho
    · rw [ho, listForm_nil_iff, eq_comm]
    · exact iff_of_false id fun h => ho h.eq_nil
  | succ room ih =>
    refine (Reader.recognisesAll_isEmpty (recognisesAll_pure _)
      (RecognisesAll.bind recognises_read fun v => ih.map (v :: ·))).congr fun o vs => ?_
    split_ifs with ho
    · rw [ho, listForm_nil_iff, eq_comm]
    · exact (listForm_succ_iff ho).symm

theorem recognises_readList (max : Nat) :
    Recognises (readList max) (Element.Form Tag.sequence (ListForm max)) :=
  Reader.recognises_inside (recognisesAll_readUpTo max max)

end VarBind

/-! ## Protocol data units -/

namespace PduType

/-- A type is found by its tag only. -/
theorem ofTag?_eq_some_iff {t : Tag} {type : PduType} : ofTag? t = some type ↔ type.tag = t := by
  constructor
  · intro h
    simpa using List.find?_some h
  · rintro rfl
    exact ofTag?_tag type

end PduType

namespace Pdu

/-- The contents of the elements of PDUs: three numbers and a list of at most
    `max` varbinds. -/
inductive ContentForm (max : Nat) : List UInt8 → Pdu → Prop where
  | mk {id status index varbinds : List UInt8} {p : Pdu}
      (hid : Element.Form Tag.integer Integer.Form id p.requestId)
      (hstatus : Element.Form Tag.integer Integer.Form status p.errorStatus)
      (hindex : Element.Form Tag.integer Integer.Form index p.errorIndex)
      (hvarbinds : Element.Form Tag.sequence (VarBind.ListForm max) varbinds p.varbinds) :
      ContentForm max (id ++ (status ++ (index ++ varbinds))) p

/-- The forms of a PDU: an element with the tag of its type. -/
def Form (max : Nat) (o : List UInt8) (p : Pdu) : Prop :=
  Element.Form p.type.tag (ContentForm max) o p

/-- PDUs are read from their forms and from nothing else. -/
theorem recognisesAll_read (max : Nat) : RecognisesAll (read max) (Form max) := by
  refine Reader.recognisesAll_offset fun start => ?_
  have hcontent : ∀ type : PduType, RecognisesAll (do
      let requestId ← Reader.integer
      let errorStatus ← Reader.integer
      let errorIndex ← Reader.integer
      let varbinds ← VarBind.readList max
      Reader.expectRemaining 0
      return (⟨type, requestId, errorStatus, errorIndex, varbinds⟩ : Pdu))
      fun content p => p.type = type ∧ ContentForm max content p := by
    intro type
    refine (RecognisesAll.bind Reader.recognises_integer fun id =>
      RecognisesAll.bind Reader.recognises_integer fun status =>
      RecognisesAll.bind Reader.recognises_integer fun index =>
      RecognisesAll.bind (VarBind.recognises_readList max) fun vs =>
      Reader.recognisesAll_expectRemaining (⟨type, id, status, index, vs⟩ : Pdu)).congr
      fun content p => ?_
    constructor
    · rintro ⟨_, _, _, hid, ⟨_, _, _, hstatus, ⟨_, _, _, hindex, ⟨_, _, _, hvarbinds, ⟨rfl, rfl⟩,
        rfl⟩, rfl⟩, rfl⟩, rfl⟩
      rw [List.append_nil]
      exact ⟨rfl, .mk hid hstatus hindex hvarbinds⟩
    · rintro ⟨rfl, hid, hstatus, hindex, hvarbinds⟩
      exact ⟨_, _, _, hid, ⟨_, _, _, hstatus, ⟨_, _, _, hindex, ⟨_, _, [], hvarbinds, ⟨rfl, rfl⟩,
        (List.append_nil _).symm⟩, rfl⟩, rfl⟩, rfl⟩
  -- Behind the tag of a type stand a length and the content of a PDU of that type.
  refine (RecognisesAll.bind Reader.recognises_octet
    (G := fun t o p => p.type.tag = t ∧ ∃ l content, Length.Form l content.length ∧
      ContentForm max content p ∧ o = l ++ content) fun t => ?_).congr fun o p => ?_
  · cases htype : PduType.ofTag? t with
    | none =>
      refine (Reader.recognisesAll_failAt _ _).congr fun o p => iff_of_false id ?_
      rintro ⟨htag, -⟩
      rw [PduType.ofTag?_eq_some_iff.2 htag] at htype
      cases htype
    | some type =>
      obtain rfl := PduType.ofTag?_eq_some_iff.1 htype
      refine (RecognisesAll.bind Reader.recognises_length fun n =>
        Reader.recognisesAll_inside (hcontent type) n).congr fun o p => ?_
      constructor
      · rintro ⟨_, l, content, hl, ⟨rfl, rfl, hp⟩, rfl⟩
        exact ⟨rfl, l, content, hl, hp, rfl⟩
      · rintro ⟨htag, l, content, hl, hp, rfl⟩
        rw [PduType.ofTag?_eq_some_iff.2 htag] at htype
        exact ⟨_, l, content, hl, ⟨rfl, Option.some.inj htype, hp⟩, rfl⟩
  · constructor
    · rintro ⟨_, _, _, rfl, ⟨rfl, l, content, hl, hp, rfl⟩, rfl⟩
      rw [List.singleton_append]
      exact .mk hl hp
    · rintro ⟨hl, hp⟩
      exact ⟨p.type.tag, [p.type.tag], _, rfl, ⟨rfl, _, _, hl, hp, rfl⟩, rfl⟩

end Pdu

/-! ## Messages -/

/-- A version is found by its number only. -/
theorem Version.ofCode?_eq_some_iff {code : Int32} {v : Version} :
    ofCode? code = some v ↔ v.code = code := by
  rw [ofCode?]
  constructor
  · intro h
    split_ifs at h with h₁ h₂ <;> cases h
    · exact h₁.symm
    · exact h₂.symm
  · rintro rfl
    cases v <;> rfl

namespace Message

/-- The contents of the elements of messages: a version, a community and a PDU
    of at most `max` varbinds. -/
inductive ContentForm (max : Nat) : List UInt8 → Message → Prop where
  | mk {version community pdu : List UInt8} {m : Message}
      (hversion : Element.Form Tag.integer Integer.Form version m.version.code)
      (hcommunity : Element.Form Tag.octetString Eq community m.community)
      (hfits : CommunityFits m.community) (hpdu : Pdu.Form max pdu m.pdu) :
      ContentForm max (version ++ (community ++ pdu)) m

/-- The forms of a message of at most `max` varbinds. -/
def Form (max : Nat) (o : List UInt8) (m : Message) : Prop :=
  Element.Form Tag.sequence (ContentForm max) o m

theorem recognises_readVersion :
    Recognises readVersion fun o v => Element.Form Tag.integer Integer.Form o v.code := by
  refine Reader.recognises_offset fun start => ?_
  refine (Reader.recognises_integer.bind (G := fun code o v => o = [] ∧ v.code = code)
    fun code => ?_).congr fun o v => ?_
  · cases hcode : Version.ofCode? code with
    | none =>
      refine (Reader.recognises_failAt _ _).congr fun o v => iff_of_false id ?_
      rintro ⟨-, hv⟩
      rw [Version.ofCode?_eq_some_iff.2 hv] at hcode
      cases hcode
    | some version =>
      refine (recognises_pure version).congr fun o v => and_congr_right fun _ => ?_
      rw [← Version.ofCode?_eq_some_iff, hcode, Option.some.injEq]
  · constructor
    · rintro ⟨_, o, _, hcode, ⟨rfl, rfl⟩, rfl⟩
      rwa [List.append_nil]
    · intro hcode
      exact ⟨_, o, [], hcode, ⟨rfl, rfl⟩, (List.append_nil o).symm⟩

theorem recognises_readCommunity : Recognises readCommunity
    fun o community => Element.Form Tag.octetString Eq o community ∧ CommunityFits community := by
  refine Reader.recognises_offset fun start => ?_
  have hcheck : ∀ community : List UInt8, Recognises
      (if community.isEmpty ∨ maxCommunityLength < community.length then
        Reader.failAt start (.invalidCommunityLength community.length)
      else return community)
      fun o c => o = [] ∧ CommunityFits community ∧ community = c := by
    intro community
    have hfits : CommunityFits community ↔
        ¬(community.isEmpty ∨ maxCommunityLength < community.length) := by
      rw [CommunityFits, not_or, List.isEmpty_iff, Nat.not_lt]
    split_ifs with h
    · refine (Reader.recognises_failAt _ _).congr fun o c => iff_of_false id ?_
      rintro ⟨-, hc, -⟩
      exact hfits.1 hc h
    · refine (recognises_pure community).congr fun o c => and_congr_right fun _ => ?_
      exact (and_iff_right (hfits.2 h)).symm
  have helement : Recognises Reader.octetString (Element.Form Tag.octetString Eq) :=
    Reader.recognises_element Reader.recognises_octets
  refine (helement.bind hcheck).congr fun o c => ?_
  constructor
  · rintro ⟨_, o, _, hc, ⟨rfl, hfits, rfl⟩, rfl⟩
    rw [List.append_nil]
    exact ⟨hc, hfits⟩
  · rintro ⟨hc, hfits⟩
    exact ⟨c, o, [], hc, ⟨rfl, hfits, rfl⟩, (List.append_nil o).symm⟩

/-- Messages are read from their forms and from nothing else. -/
theorem recognisesAll_read (max : Nat) : RecognisesAll (read max) (Form max) := by
  have hcontent : RecognisesAll (do
      let version ← readVersion
      let community ← readCommunity
      let pdu ← Pdu.read max
      return (⟨version, community, pdu⟩ : Message)) (ContentForm max) := by
    refine (RecognisesAll.bind recognises_readVersion fun version =>
      RecognisesAll.bind recognises_readCommunity fun community =>
      (Pdu.recognisesAll_read max).map (Message.mk version community)).congr fun content m => ?_
    constructor
    · rintro ⟨_, _, _, hversion, ⟨_, _, _, ⟨hcommunity, hfits⟩, ⟨_, hpdu, rfl⟩, rfl⟩, rfl⟩
      exact .mk hversion hcommunity hfits hpdu
    · rintro ⟨hversion, hcommunity, hfits, hpdu⟩
      exact ⟨_, _, _, hversion, ⟨_, _, _, ⟨hcommunity, hfits⟩, ⟨_, hpdu, rfl⟩, rfl⟩, rfl⟩
  refine (RecognisesAll.bind (Reader.recognises_expectTag Tag.sequence) fun n =>
    Reader.recognisesAll_inside hcontent n).congr fun o m => ?_
  constructor
  · rintro ⟨_, _, content, ⟨l, hl, rfl⟩, ⟨rfl, hm⟩, rfl⟩
    exact .mk hl hm
  · rintro ⟨hl, hm⟩
    exact ⟨_, _, _, ⟨_, hl, rfl⟩, ⟨rfl, hm⟩, rfl⟩

/-- Octets are a message exactly if they are one of its forms. -/
theorem decode_eq_ok_iff {data : List UInt8} {max : Nat} {m : Message} :
    decode data max = .ok m ↔ Form max data m := by
  rw [← recognisesAll_read max 0 data m, decode, Cursor.ofMessage]
  cases read max ⟨0, data⟩ with
  | ok m' c => simp
  | error e c => simp

/-- Octets that are no message are refused. -/
theorem decode_eq_error {data : List UInt8} {max : Nat} (h : ∀ m, ¬Form max data m) :
    ∃ e, decode data max = .error e := by
  cases hd : decode data max with
  | ok m => exact absurd (decode_eq_ok_iff.1 hd) (h m)
  | error e => exact ⟨e, rfl⟩

/-- Exactly the forms of messages are read, each as the message that it is a
    form of; all other octets are refused, among them all that begin a message
    without being one, and all that go on behind one. -/
theorem decode_eq_ok_iff_form (data : List UInt8) (max : Nat) :
    (∀ m, decode data max = .ok m ↔ Form max data m) ∧
    ((∀ m, ¬Form max data m) → ∃ e, decode data max = .error e) ∧
    ∀ m data', decode data max = .ok m → data' ≠ data → data' <+: data ∨ data <+: data' →
      ∀ max', ∃ e, decode data' max' = .error e := by
  refine ⟨fun m => decode_eq_ok_iff, decode_eq_error, ?_⟩
  intro m data' hm hne hbegins max'
  refine decode_eq_error fun m' hm' => hne ?_
  have hform := decode_eq_ok_iff.1 hm
  rcases hbegins with hbegins | hbegins
  · exact hm'.eq_of_isPrefix hform hbegins
  · exact (hform.eq_of_isPrefix hm' hbegins).symm

/-- The message of a request for the variable 1.3.6.1. -/
def getMessage : Message :=
  ⟨.v2c, [0x70], ⟨.getRequest, 5, 0, 0, [⟨⟨[1, 3, 6, 1]⟩, .null⟩]⟩⟩

/-- A form of that message in which lengths, the version and the name are longer
    than they need to be. -/
def paddedRequest : List UInt8 :=
  [0x30, 0x82, 0x00, 0x21, 0x02, 0x02, 0x00, 0x01, 0x04, 0x81, 0x01, 0x70, 0xA0, 0x81, 0x16, 0x02,
    0x01, 0x05, 0x02, 0x01, 0x00, 0x02, 0x01, 0x00, 0x30, 0x0B, 0x30, 0x09, 0x06, 0x04, 0x2B, 0x80,
    0x06, 0x01, 0x05, 0x81, 0x00]

/-- That form is read, but not without its last octet and not with another octet
    behind it. -/
theorem decode_paddedRequest : Form 20 paddedRequest getMessage ∧
    (∃ e, decode paddedRequest.dropLast 20 = .error e) ∧
    ∃ e, decode (paddedRequest ++ [0x00]) 20 = .error e := by
  have hread : decode paddedRequest 20 = .ok getMessage := rfl
  obtain ⟨hforms, -, hothers⟩ := decode_eq_ok_iff_form paddedRequest 20
  refine ⟨(hforms getMessage).1 hread, ?_, ?_⟩
  · exact hothers getMessage _ hread (by decide) (.inl (List.dropLast_prefix _)) 20
  · exact hothers getMessage _ hread (by decide) (.inr (List.prefix_append _ _)) 20

end Message

end SnmpAgent
