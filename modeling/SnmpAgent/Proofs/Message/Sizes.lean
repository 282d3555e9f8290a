import SnmpAgent.Proofs.Ber.Shortest
import SnmpAgent.Proofs.Message.Forms
import SnmpAgent.Proofs.Engine.Trimming

/-!
# The shortest forms

What is written is the shortest of all forms: no length, number or name can be
encoded in fewer octets, and an element only grows with its content. So a
message that was received is no shorter than one that says the same, or less.

* `Length.Form.size_le`, `Integer.Form.length_twosComplement_le`,
  `Oid.Form.contentLength_le`: nothing is shorter than what is written;
* `Message.Form.frameLength_le`: a message is at least as long as one with the
  same names but without values, if the two other numbers in that are small.
-/

namespace SnmpAgent

open Integer
open Binding (elementLength)

/-! ## Lengths and numbers -/

/-- The predicted size of a length is the smallest of its forms. -/
theorem Length.Form.size_le {l : List UInt8} {n : Nat} (h : Form l n) : size n ≤ l.length := by
  cases h with
  | @short b hb =>
    have hsmall : b.toNat ≤ 0x7F := Nat.le_of_lt_succ (UInt8.lt_iff_toNat_lt.1 hb)
    rw [size, if_pos hsmall]
    rfl
  | oneOctet b =>
    have hsmall : b.toNat ≤ 0xFF := Nat.le_of_lt_succ b.toNat_lt
    rw [size, if_pos hsmall]
    split_ifs <;> simp
  | twoOctets a b =>
    rw [size]
    split_ifs <;> simp

/-- No form of an element is shorter than the element that is written around the
    same content. -/
theorem Element.Form.exists_elementLength_le {α : Type} {t : Tag} {C : List UInt8 → α → Prop}
    {o : List UInt8} {a : α} (h : Form t C o a) :
    ∃ content, C content a ∧ elementLength content.length ≤ o.length := by
  obtain ⟨hl, hcontent⟩ := h
  rename_i l content
  have hsize := hl.size_le
  refine ⟨content, hcontent, ?_⟩
  rw [elementLength, List.length_cons, List.length_append]
  omega

theorem Integer.Form.length_twosComplement_le {content : List UInt8} {v : Int32}
    (h : Form content v) : (twosComplement v.toInt).length ≤ content.length :=
  (shortest_twosComplement v.toInt).length_le h.ne_nil h.value_eq

/-- The element of a number has three octets or more. -/
theorem Element.three_le_integerLength (v : Int32) : 3 ≤ integerLength v := by
  have hpos := List.length_pos_iff.2 (twosComplement_ne_nil v.toInt)
  exact elementLength_mono hpos

/-- No form of the element of a number is shorter than the one that is written. -/
theorem Integer.integerLength_le {o : List UInt8} {v : Int32}
    (h : Element.Form Tag.integer Form o v) : Element.integerLength v ≤ o.length := by
  obtain ⟨content, hcontent, hle⟩ := h.exists_elementLength_le
  exact Nat.le_trans (elementLength_mono hcontent.length_twosComplement_le) hle

/-! ## Names -/

namespace Oid

/-- Each group is a further digit in base 128. -/
theorem groupsValue_lt (acc : Nat) (o : List UInt8) :
    groupsValue acc o < (acc + 1) * 128 ^ o.length := by
  induction o generalizing acc with
  | nil => simp [groupsValue]
  | cons b o ih =>
    rw [groupsValue_cons, List.length_cons, Nat.pow_succ, Nat.mul_comm (128 ^ o.length),
      ← Nat.mul_assoc]
    refine Nat.lt_of_lt_of_le (ih _) (Nat.mul_le_mul_right _ ?_)
    omega

/-- A number of `k + 1` digits in base 128 takes as many groups, at most. -/
theorem base128Length_le {n k : Nat} (h : n < 128 ^ (k + 1)) : base128Length n ≤ k + 1 := by
  rw [base128Length]
  rcases k with _ | _ | _ | _ | k
  · rw [if_pos (by omega)]
  · split_ifs <;> omega
  · split_ifs <;> omega
  · split_ifs <;> omega
  · split_ifs <;> omega

/-- The groups that are written for a number are the fewest that denote it. -/
theorem Groups.base128Length_le {o : List UInt8} (h : Groups o) :
    base128Length (groupsValue 0 o) ≤ o.length := by
  have hlt := groupsValue_lt 0 o
  have hpos := List.length_pos_iff.2 h.ne_nil
  obtain ⟨k, hk⟩ : ∃ k, o.length = k + 1 := ⟨o.length - 1, by omega⟩
  rw [hk, Nat.zero_add, Nat.one_mul] at hlt
  rw [hk]
  exact Oid.base128Length_le hlt

/-- The content that is written for a name is the shortest of its forms. -/
theorem Form.contentLength_le {content : List UInt8} {oid : Oid} (h : Form content oid) :
    oid.contentLength ≤ content.length := by
  obtain ⟨hpair, hvalue, harc, hrest, -⟩ := h
  rename_i pair os first second rest
  have hoctet : first.toNat * 40 + second.toNat ≤ maxFirstOctet := by
    rw [InArc] at harc
    rw [maxFirstOctet]
    omega
  have hfirst : base128Length (packFirst first second) ≤ pair.length := by
    rw [packFirst_eq hoctet, ← hvalue]
    exact hpair.base128Length_le
  have hothers : (rest.map UInt32.toNat).foldr (base128Length · + ·) 0 ≤ os.flatten.length := by
    clear hvalue harc hoctet hfirst
    induction hrest with
    | nil => exact Nat.le_refl 0
    | cons ho _ ih =>
      have hle := ho.groups.base128Length_le
      rw [ho.value_eq] at hle
      rw [List.map_cons, List.foldr_cons, List.flatten_cons, List.length_append]
      omega
  rw [contentLength, packed, List.length_append]
  exact Nat.add_le_add hfirst hothers

/-- A number of 32 bits takes at most five groups. -/
theorem base128Length_le_five (n : Nat) : base128Length n ≤ 5 := by
  rw [base128Length]
  split_ifs <;> omega

/-- The content of a valid name has at most 95 octets: one number stands for two
    of the 20 sub-identifiers. -/
theorem contentLength_le_of_validate {oid : Oid} (h : oid.validate = .ok ()) :
    oid.contentLength ≤ 95 := by
  obtain ⟨first, second, rest, rfl, hlength, -⟩ := validate_eq_ok.1 h
  have hgroups : ∀ ns : List Nat, ns.foldr (base128Length · + ·) 0 ≤ 5 * ns.length := by
    intro ns
    induction ns with
    | nil => exact Nat.le_refl 0
    | cons n ns ih =>
      have hn := base128Length_le_five n
      rw [List.foldr_cons, List.length_cons]
      omega
  refine Nat.le_trans (hgroups _) ?_
  rw [maxSubids] at hlength
  rw [packed, List.length_cons, List.length_map]
  omega

theorem Canonical.contentLength_le {oid : Oid} (h : oid.Canonical) : oid.contentLength ≤ 95 :=
  contentLength_le_of_validate h.validate

end Oid

/-! ## Messages -/

/-- A varbind is no shorter than its name without a value. -/
theorem VarBind.Form.encodedLength_le {o : List UInt8} {v : VarBind} (h : Form o v) :
    (Binding.marker v.oid .null).encodedLength ≤ o.length := by
  obtain ⟨_, ⟨hname, hvalue⟩, hle⟩ := Element.Form.exists_elementLength_le h
  rename_i name value
  obtain ⟨content, hcontent, hname⟩ := hname.exists_elementLength_le
  obtain ⟨_, -, hvalue⟩ := Element.Form.exists_content hvalue
  have hoid := elementLength_mono hcontent.contentLength_le
  refine Nat.le_trans (elementLength_mono ?_) hle
  have hmarker : (Binding.marker v.oid .null).value.length = 2 := rfl
  rw [hmarker, List.length_append]
  change elementLength v.oid.contentLength + 2 ≤ _
  omega

/-- Varbinds are no shorter than their names without values. -/
theorem VarBind.ListForm.predicted_le {max : Nat} {content : List UInt8} {vs : List VarBind}
    (h : ListForm max content vs) :
    Response.predicted (vs.map fun v => Binding.marker v.oid .null) ≤ content.length := by
  obtain ⟨hos, -⟩ := h
  induction hos with
  | nil => exact Nat.le_refl 0
  | cons hv _ ih =>
    have hle := hv.encodedLength_le
    rw [List.map_cons, Response.predicted_cons, List.flatten_cons, List.length_append]
    omega

/-- A PDU is no shorter than one of the same request id and names, but without
    values and with two other numbers, if these are small. -/
theorem Pdu.Form.elementLength_le {max : Nat} {o : List UInt8} {p q : Pdu} (h : Form max o p)
    (hid : q.requestId = p.requestId) (hstatus : Element.integerLength q.errorStatus ≤ 3)
    (hindex : Element.integerLength q.errorIndex ≤ 3) :
    elementLength (q.numbersLength + elementLength
      (Response.predicted (p.varbinds.map fun v => Binding.marker v.oid .null))) ≤ o.length := by
  obtain ⟨_, ⟨hrequestId, hstatus', hindex', hvarbinds⟩, hle⟩ :=
    Element.Form.exists_elementLength_le h
  obtain ⟨_, hlist, hvarbinds⟩ := hvarbinds.exists_elementLength_le
  have hlist := Nat.le_trans (elementLength_mono hlist.predicted_le) hvarbinds
  have hrequestId := Integer.integerLength_le hrequestId
  have hstatus' := Nat.le_trans (Element.three_le_integerLength _) (integerLength_le hstatus')
  have hindex' := Nat.le_trans (Element.three_le_integerLength _) (integerLength_le hindex')
  refine Nat.le_trans (elementLength_mono ?_) hle
  rw [numbersLength, hid]
  simp only [List.length_append]
  omega

/-- A message is no shorter than one of the same version, community, request id
    and names, but without values and with two other numbers, if these are
    small. -/
theorem Message.Form.frameLength_le {max : Nat} {o : List UInt8} {m : Message} (h : Form max o m)
    {q : Pdu} (hid : q.requestId = m.pdu.requestId)
    (hstatus : Element.integerLength q.errorStatus ≤ 3)
    (hindex : Element.integerLength q.errorIndex ≤ 3) :
    Message.frameLength ⟨m.version, m.community, q⟩
      (Response.predicted (m.pdu.varbinds.map fun v => Binding.marker v.oid .null)) ≤ o.length := by
  obtain ⟨_, ⟨hversion, hcommunity, -, hpdu⟩, hle⟩ := Element.Form.exists_elementLength_le h
  obtain ⟨_, rfl, hcommunity⟩ := hcommunity.exists_elementLength_le
  have hversion := Integer.integerLength_le hversion
  have hpdu := hpdu.elementLength_le hid hstatus hindex
  refine Nat.le_trans (elementLength_mono ?_) hle
  rw [headLength]
  simp only [List.length_append]
  omega

end SnmpAgent
