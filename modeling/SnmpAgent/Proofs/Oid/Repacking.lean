import SnmpAgent.Proofs.Oid.Text
import SnmpAgent.Proofs.Message.Sizes

/-!
# Identifiers that are sent and read

The octet that stands for the first pair of an identifier is the one of several
pairs, of which only one lies in an arc. So what is read of a valid identifier
is the identifier itself if its first pair lies in an arc, and the one with
that pair in its place otherwise. Whatever is read has such a pair, so it stays
what it is from then on, and no other identifier is sent as the same octets.

* `ofContent_content_repacks`: what is read of an identifier that was configured;
* `ofContent_canonical`: what is read is valid, no longer when it is sent, and
  told by its octets.
-/

namespace SnmpAgent.Oid

variable {o : Oid} {data : List UInt8} {base : Nat}

/-! ## Identifiers that are sent -/

/-- An identifier that is read from a text, or is otherwise valid, is read from
    its octets with its first pair replaced by the one in an arc that packs into
    the same octet. That is the identifier itself exactly if its first pair lies
    in an arc. -/
theorem ofContent_content_repacks (h : (∃ text, parse text = .ok o) ∨ o.validate = .ok ())
    (base : Nat) : ∃ first second rest a b, o = ⟨first :: second :: rest⟩ ∧
      ofContent o.content base = .ok ⟨a :: b :: rest⟩ ∧ InArc a b ∧
      a.toNat * 40 + b.toNat = first.toNat * 40 + second.toNat ∧
      (ofContent o.content base = .ok o ↔ InArc first second) := by
  have hvalid : o.validate = .ok () := by
    rcases h with ⟨text, htext⟩ | hvalid
    · exact validate_of_parse htext
    · exact hvalid
  obtain ⟨first, second, rest, a, b, ho, hrepacked, -, harc, hsum⟩ := exists_repacked_eq hvalid
  have hread : ofContent o.content base = .ok ⟨a :: b :: rest⟩ := by
    rw [ofContent_content hvalid, hrepacked]
  refine ⟨first, second, rest, a, b, ho, hread, harc, hsum, ?_⟩
  rw [hread, ho]
  constructor
  · intro hsame
    cases hsame
    exact harc
  · intro harc'
    obtain ⟨rfl, rfl⟩ := harc.unique harc' hsum
    rfl

/-- The identifier of a vendor, as it may be configured. -/
theorem ofContent_content_repacks_vendor :
    parse ".1.3.6.1.4.1.2021" = .ok ⟨[1, 3, 6, 1, 4, 1, 2021]⟩ ∧
      ∃ first second rest a b, (⟨[1, 3, 6, 1, 4, 1, 2021]⟩ : Oid) = ⟨first :: second :: rest⟩ ∧
        ofContent (content ⟨[1, 3, 6, 1, 4, 1, 2021]⟩) 7 = .ok ⟨a :: b :: rest⟩ ∧ InArc a b ∧
        a.toNat * 40 + b.toNat = first.toNat * 40 + second.toNat ∧
        (ofContent (content ⟨[1, 3, 6, 1, 4, 1, 2021]⟩) 7 = .ok ⟨[1, 3, 6, 1, 4, 1, 2021]⟩ ↔
          InArc first second) := by
  have hparse : parse ".1.3.6.1.4.1.2021" = .ok ⟨[1, 3, 6, 1, 4, 1, 2021]⟩ := by decide +kernel
  exact ⟨hparse, ofContent_content_repacks (.inl ⟨_, hparse⟩) 7⟩

/-- Not every identifier is read as it was configured: the octet of the pair
    6.15, the largest, is also the one of 2.175. -/
theorem ofContent_content_ne : parse ".6.15" = .ok ⟨[6, 15]⟩ ∧
    ofContent (content ⟨[6, 15]⟩) 0 = .ok ⟨[2, 175]⟩ ∧
    ofContent (content ⟨[6, 15]⟩) 0 ≠ .ok ⟨[6, 15]⟩ := by
  decide +kernel

/-! ## Identifiers that are read -/

/-- What was read is read again, wherever it stands. -/
theorem ofContent_content_of_ofContent (h : ofContent data base = .ok o) (base' : Nat) :
    ofContent o.content base' = .ok o := by
  have hcanonical := canonical_of_ofContent h
  rw [ofContent_content hcanonical.validate, hcanonical.repacked_eq]

/-- What was read is sent in as many octets, at most, as it was read from. -/
theorem length_content_le_of_ofContent (h : ofContent data base = .ok o) :
    o.content.length ≤ data.length := by
  rw [length_content]
  exact (ofContent_eq_ok_iff.1 h).contentLength_le

/-- An identifier that is read is valid and has 2 to `maxSubids`
    sub-identifiers. It is sent in as many octets, at most, as it was read from,
    it is read again from them, and no other one that is read is sent as the
    same octets. -/
theorem ofContent_canonical (h : ofContent data base = .ok o) :
    o.validate = .ok () ∧ 2 ≤ o.length ∧ o.length ≤ maxSubids ∧
      o.content.length ≤ data.length ∧ (∀ base', ofContent o.content base' = .ok o) ∧
      ∀ data' base' o', ofContent data' base' = .ok o' → o' ≠ o → o'.content ≠ o.content := by
  have hcanonical := canonical_of_ofContent h
  obtain ⟨first, second, rest, ho, hlength, -⟩ := id hcanonical
  refine ⟨hcanonical.validate, ?_, ?_, length_content_le_of_ofContent h,
    ofContent_content_of_ofContent h, ?_⟩
  · rw [ho]
    exact Nat.le_add_left 2 rest.length
  · rw [ho]
    exact hlength
  · intro data' base' o' h' hne hsame
    have hread := ofContent_content_of_ofContent h' 0
    rw [hsame, ofContent_content_of_ofContent h 0] at hread
    exact hne (Except.ok.inj hread).symm

/-- An identifier that is read from octets with leading zeros. -/
theorem ofContent_canonical_padded :
    ofContent [0x80, 0x2B, 0x06, 0x80, 0x01] 3 = .ok ⟨[1, 3, 6, 1]⟩ ∧
      validate ⟨[1, 3, 6, 1]⟩ = .ok () ∧ 2 ≤ length ⟨[1, 3, 6, 1]⟩ ∧
      length ⟨[1, 3, 6, 1]⟩ ≤ maxSubids ∧
      (content ⟨[1, 3, 6, 1]⟩).length ≤ [0x80, 0x2B, 0x06, 0x80, 0x01].length ∧
      (∀ base', ofContent (content ⟨[1, 3, 6, 1]⟩) base' = .ok ⟨[1, 3, 6, 1]⟩) ∧
      ∀ data' base' o', ofContent data' base' = .ok o' → o' ≠ ⟨[1, 3, 6, 1]⟩ →
        o'.content ≠ content ⟨[1, 3, 6, 1]⟩ := by
  have hread : ofContent [0x80, 0x2B, 0x06, 0x80, 0x01] 3 = .ok ⟨[1, 3, 6, 1]⟩ := by decide +kernel
  exact ⟨hread, ofContent_canonical hread⟩

end SnmpAgent.Oid
