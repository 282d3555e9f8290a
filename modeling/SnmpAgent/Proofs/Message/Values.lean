import SnmpAgent.Proofs.Ber.Shortest
import SnmpAgent.Proofs.Oid.Wire
import SnmpAgent.Value

/-!
# Values on the wire

The element of a value is its tag, a length and its *content*. It can be
written wherever the content is not too long, and it is read back from its
octets as the same value; only a name comes back repacked.

* `writes_write`, `tlv_eq_ok`: the element of a value;
* `Legible`: the values that can be read back;
* `takes_read`: what is read from the element of such a value;
* `Canonical`: the values that come back as they are.
-/

namespace SnmpAgent.Value

open Integer

/-- The octets in the element of a value, behind the tag and the length. -/
def content : Value → List UInt8
  | .integer v => twosComplement v.toInt
  | .octetString octets => octets
  | .objectIdentifier oid => oid.content
  | .ipAddress address => address.octets
  | .counter32 v | .gauge32 v | .timeTicks v => twosComplement v.toNat
  | .counter64 v => twosComplement v.toNat
  | .null | .noSuchObject | .noSuchInstance | .endOfMibView => []

/-- A value is written as an element. -/
theorem write_eq (v : Value) : v.write = Writer.element v.tag v.content := by
  cases v with
  | integer v => exact Writer.integer_eq v
  | counter32 v | gauge32 v | timeTicks v => exact Writer.unsigned32_eq _ v
  | counter64 v => exact Writer.unsigned64_eq v
  | octetString | objectIdentifier | ipAddress | null | noSuchObject | noSuchInstance
  | endOfMibView => rfl

/-- What a value writes is its element. -/
theorem writes_write (v : Value) : Writes v.write (Element.octets? v.tag v.content) := by
  rw [v.write_eq]
  exact Writer.writes_element _ _

/-- The encoded element of a value, where there is one. -/
theorem tlv_eq_ok {v : Value} {o : List UInt8} :
    v.tlv = .ok o ↔ Element.octets? v.tag v.content = some o :=
  v.writes_write.run_none_eq_ok_iff

/-- A value whose content is not too long has an encoded element. -/
theorem exists_tlv_iff {v : Value} : (∃ o, v.tlv = .ok o) ↔ v.content.length ≤ Length.max := by
  simp only [tlv_eq_ok]
  exact Element.exists_octets?_iff

/-- A value whose content is too long is refused with the length of its
    content. -/
theorem tlv_eq_error {v : Value} (h : Length.max < v.content.length) :
    v.tlv = .error (.lengthTooLarge v.content.length) := by
  have hlength : Length.octets v.content.length = .error (.lengthTooLarge v.content.length) := by
    rw [Length.max] at h
    rw [Length.octets, Length.max, if_neg (by omega), if_neg (by omega), if_neg (by omega)]
  rw [tlv, v.write_eq, Writer.element, Writer.length, hlength]
  rfl

/-- Only strings of octets and names are long. -/
theorem length_content_le {v : Value} (hs : v.type ≠ .octetString)
    (hn : v.type ≠ .objectIdentifier) : v.content.length ≤ 9 := by
  have h32 : ∀ n : UInt32, (twosComplement n.toNat).length ≤ 9 := fun n =>
    Nat.le_trans (length_twosComplement_natCast_le (k := 4) n.toNat_lt) (by decide)
  cases v with
  | integer v =>
    exact Nat.le_trans (length_twosComplement_le 3 v.le_toInt v.toInt_lt) (by decide)
  | octetString octets => exact absurd rfl hs
  | objectIdentifier oid => exact absurd rfl hn
  | ipAddress address => exact (by decide : 4 ≤ 9)
  | counter32 n | gauge32 n | timeTicks n => exact h32 n
  | counter64 n => exact length_twosComplement_natCast_le (k := 8) n.toNat_lt
  | null | noSuchObject | noSuchInstance | endOfMibView => exact Nat.zero_le _

/-! ## Reading back -/

/-- The values that can be read back: all but the names that are not valid. -/
def Legible : Value → Prop
  | .objectIdentifier oid => oid.validate = .ok ()
  | _ => True

/-- The value with its name repacked, if it is one. -/
def repacked : Value → Value
  | .objectIdentifier oid => .objectIdentifier oid.repacked
  | v => v

/-- Repacking changes no type. -/
theorem type_repacked (v : Value) : v.repacked.type = v.type := by
  cases v <;> rfl

theorem legible_of_isMarker {v : Value} (h : v.type.isMarker) : v.Legible := by
  cases v with
  | objectIdentifier oid => cases h
  | _ => trivial

theorem repacked_of_isMarker {v : Value} (h : v.type.isMarker) : v.repacked = v := by
  cases v with
  | objectIdentifier oid => cases h
  | _ => rfl

/-- A marker has no content. -/
theorem content_of_isMarker {v : Value} (h : v.type.isMarker) : v.content = [] := by
  cases v with
  | null | noSuchObject | noSuchInstance | endOfMibView => rfl
  | _ => cases h

/-- All other values have some, except perhaps for a string of octets. -/
theorem content_ne_nil {v : Value} (hv : v.Legible) (h : ¬v.type.isMarker)
    (hs : v.type ≠ .octetString) : v.content ≠ [] := by
  cases v with
  | integer v => exact twosComplement_ne_nil _
  | octetString octets => exact absurd rfl hs
  | objectIdentifier oid => exact Oid.content_ne_nil hv
  | ipAddress address => exact List.cons_ne_nil _ _
  | counter32 v | gauge32 v | timeTicks v => exact twosComplement_ne_nil _
  | counter64 v => exact twosComplement_ne_nil _
  | null | noSuchObject | noSuchInstance | endOfMibView => exact absurd rfl h

theorem takes_oidContent {oid : Oid} (h : oid.validate = .ok ()) :
    Takes (Reader.oidContent oid.content.length) oid.content oid.repacked := by
  refine Reader.takes_offset fun start => ?_
  have hread : Takes (Reader.ofExcept (Oid.ofContent oid.content start)) [] oid.repacked := by
    rw [Oid.ofContent_content h]
    exact takes_pure _
  have hboth := Takes.bind (f := fun content => Reader.ofExcept (Oid.ofContent content start))
    (Reader.takes_octets oid.content) hread
  rwa [List.append_nil] at hboth

/-- The content of a legible value is read as that value, repacked. -/
theorem takes_readContent {v : Value} (h : v.Legible) :
    Takes (readContent v.content.length v.type) v.content v.repacked := by
  cases v with
  | integer v => exact (Reader.takes_integerContent v).map Value.integer
  | octetString octets => exact (Reader.takes_octets octets).map Value.octetString
  | objectIdentifier oid => exact (takes_oidContent h).map Value.objectIdentifier
  | ipAddress address => exact fun _ _ => rfl
  | counter32 v => exact (Reader.takes_unsigned32Content v).map Value.counter32
  | gauge32 v => exact (Reader.takes_unsigned32Content v).map Value.gauge32
  | timeTicks v => exact (Reader.takes_unsigned32Content v).map Value.timeTicks
  | counter64 v => exact (Reader.takes_unsigned64Content v).map Value.counter64
  | null | noSuchObject | noSuchInstance | endOfMibView => exact takes_pure _

/-- The element of a legible value is read as that value, repacked. -/
theorem takes_read {v : Value} {o : List UInt8} (h : v.Legible) (ho : v.tlv = .ok o) :
    Takes read o v.repacked := by
  obtain ⟨l, hl, rfl⟩ := Element.octets?_eq_some.1 (tlv_eq_ok.1 ho)
  refine Reader.takes_offset fun start => ?_
  refine Takes.bind (Reader.takes_octet v.tag) ?_
  refine Takes.bind (Reader.takes_length hl) ?_
  -- The tag tells the type, and neither check on the length applies.
  have hmarker : ¬(v.type.isMarker ∧ v.content.length ≠ 0) := by
    rintro ⟨hm, hne⟩
    exact hne (by rw [content_of_isMarker hm]; rfl)
  have hempty : ¬(¬v.type.isMarker ∧ v.content.length = 0 ∧ v.type ≠ .octetString) := by
    rintro ⟨hm, hz, hs⟩
    exact content_ne_nil h hm hs (List.length_eq_zero_iff.1 hz)
  simp only [tag, ValueType.ofTag?_tag, if_neg hmarker, if_neg hempty]
  exact takes_readContent h

/-- The values that are read back as they are: all but the names that are not
    canonical. -/
def Canonical : Value → Prop
  | .objectIdentifier oid => oid.Canonical
  | _ => True

theorem Canonical.legible {v : Value} (h : v.Canonical) : v.Legible := by
  cases v with
  | objectIdentifier oid => exact Oid.Canonical.validate h
  | _ => trivial

/-- Repacking leaves a canonical value alone. -/
theorem Canonical.repacked_eq {v : Value} (h : v.Canonical) : v.repacked = v := by
  cases v with
  | objectIdentifier oid => rw [repacked, Oid.Canonical.repacked_eq h]
  | _ => rfl

end SnmpAgent.Value
