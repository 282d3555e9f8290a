import SnmpAgent.Proofs.Message.Sizes

/-!
# Values in a stream

A value is read from the front of a stream, and what stands behind it is left
for others. The values that come through this as they are can be *sent*: a
name among them is canonical, and a string of octets is no longer than a
length can say. These are also the only values that are ever read. So a value
that was read once can be sent on, in octets that may be fewer than those it
came in.

* `Value.Sendable`: the values that can be sent;
* `Value.sendable_of_read`: every value that is read can be sent;
* `Value.read_tlv_append`: what is sent is read back, and what was read is sent
  and read again.
-/

namespace SnmpAgent

/-- Every form of a length says a length that can be written. -/
theorem Length.Form.le_max {l : List UInt8} {n : Nat} (h : Form l n) : n ≤ Length.max := by
  rw [Length.max]
  cases h with
  | short h =>
    rename_i b
    have hb := b.toNat_lt
    omega
  | oneOctet b =>
    have hb := b.toNat_lt
    omega
  | twoOctets a b =>
    have ha := a.toNat_lt
    have hb := b.toNat_lt
    omega

namespace Value

variable {v : Value} {o content : List UInt8}

/-- The values that can be sent. -/
structure Sendable (v : Value) : Prop where
  canonical : v.Canonical
  length_le : ∀ octets, v = .octetString octets → octets.length ≤ Length.max

/-! ## Sending -/

/-- The content of a value that can be sent is no longer than a length can say. -/
theorem Sendable.length_content_le (h : v.Sendable) : v.content.length ≤ Length.max := by
  cases v with
  | octetString octets => exact h.length_le octets rfl
  | objectIdentifier oid =>
    have hoid : oid.Canonical := h.canonical
    have hlength : oid.content.length ≤ 95 := by
      rw [Oid.length_content]
      exact hoid.contentLength_le
    exact Nat.le_trans hlength (by decide)
  | _ => exact Nat.le_trans (Value.length_content_le nofun nofun) (by decide)

/-- A value that can be sent has an element, from which it is read back. -/
theorem Sendable.exists_tlv (h : v.Sendable) : ∃ o, v.tlv = .ok o ∧ Takes read o v := by
  obtain ⟨o, ho⟩ := exists_tlv_iff.2 h.length_content_le
  have htakes := takes_read h.canonical.legible ho
  rw [h.canonical.repacked_eq] at htakes
  exact ⟨o, ho, htakes⟩

/-! ## Reading -/

/-- A name is canonical whatever form it was read from. -/
theorem ContentForm.canonical (h : ContentForm content v) : v.Canonical := by
  cases v with
  | objectIdentifier oid =>
    have hread : Oid.ofContent content 0 = .ok oid := Oid.ofContent_eq_ok_iff.2 h
    exact Oid.canonical_of_ofContent hread
  | _ => trivial

/-- Only values that can be sent have forms. -/
theorem Form.sendable (h : Form o v) : v.Sendable := by
  obtain ⟨hlength, hcontent⟩ := h
  refine ⟨hcontent.canonical, ?_⟩
  rintro octets rfl
  rw [← show _ = octets from hcontent]
  exact hlength.le_max

/-- Every value that is read can be sent. -/
theorem sendable_of_read {c c' : Cursor} (h : read c = .ok v c') : v.Sendable := by
  obtain ⟨o, rest, hform, -, -⟩ := (recognises_read c.offset c.rest v c').1 h
  exact hform.sendable

/-- Exactly the values that can be sent have an element from which they are read
    back, wherever it stands and whatever follows, and the reading stops right
    behind it. Every value that was read, from whatever octets, has such an
    element. -/
theorem read_tlv_append (v : Value) :
    (v.Sendable ↔ ∃ o, v.tlv = .ok o ∧
      ∀ offset rest, read ⟨offset, o ++ rest⟩ = .ok v ⟨offset + o.length, rest⟩) ∧
    ∀ c c', read c = .ok v c' → ∃ o, v.tlv = .ok o ∧
      ∀ offset rest, read ⟨offset, o ++ rest⟩ = .ok v ⟨offset + o.length, rest⟩ := by
  refine ⟨⟨fun h => h.exists_tlv, ?_⟩, fun c c' h => (sendable_of_read h).exists_tlv⟩
  rintro ⟨o, -, hread⟩
  exact sendable_of_read (hread 0 [])

/-- A name in the last arc that has a pair is read from a form that is longer
    than its element, and read again from that. -/
theorem read_tlv_append_padded :
    (Value.objectIdentifier ⟨[2, 175, 1]⟩).Sendable ∧
    read ⟨5, [0x06, 0x81, 0x04, 0x81, 0x7F, 0x80, 0x01, 0x05, 0x00]⟩ =
      .ok (.objectIdentifier ⟨[2, 175, 1]⟩) ⟨12, [0x05, 0x00]⟩ ∧
    ∃ o, (Value.objectIdentifier ⟨[2, 175, 1]⟩).tlv = .ok o ∧ ∀ offset rest,
      read ⟨offset, o ++ rest⟩ =
        .ok (.objectIdentifier ⟨[2, 175, 1]⟩) ⟨offset + o.length, rest⟩ := by
  have hread : read ⟨5, [0x06, 0x81, 0x04, 0x81, 0x7F, 0x80, 0x01, 0x05, 0x00]⟩ =
      .ok (.objectIdentifier ⟨[2, 175, 1]⟩) ⟨12, [0x05, 0x00]⟩ := by cbv
  obtain ⟨hsendable, hagain⟩ := read_tlv_append (.objectIdentifier ⟨[2, 175, 1]⟩)
  have htlv := hagain _ _ hread
  exact ⟨hsendable.2 htlv, hread, htlv⟩

end Value

end SnmpAgent
