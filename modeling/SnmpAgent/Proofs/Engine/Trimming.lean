import SnmpAgent.Proofs.Engine.Encoding
import Mathlib.Order.Bounds.Basic
import Mathlib.Tactic.SplitIfs

/-!
# Cutting a reply to a limit

How many bindings of a bulk reply are kept is estimated from predicted sizes,
and the estimate is exact. The size of a reply exceeds the size without
bindings by the octets of the bindings and by at most six, as three lengths
may grow from one octet to three (`frameLength_le`). Whether one more binding
fits is in question only where more than 255 octets of bindings are there, and
then all three lengths have grown (`frameLength_eq`). So no binding is ever
dropped in vain, and the loop that drops bindings never runs.

* `Response.length_of_octets?`: the size of a reply;
* `Response.encodeFitting_eq`: the bindings kept are the most that fit.
-/

namespace SnmpAgent

open Integer
open Binding (elementLength)

/-! ## Predicted sizes -/

/-- The size of an element grows with its content. -/
theorem elementLength_mono {m n : Nat} (h : m ≤ n) : elementLength m ≤ elementLength n := by
  simp only [elementLength, Length.size]
  split_ifs <;> omega

/-- An element is longer than its content. -/
theorem le_elementLength (n : Nat) : n ≤ elementLength n := Nat.le_add_left _ _

/-- The size of the element of an INTEGER. -/
def Element.integerLength (v : Int32) : Nat := elementLength (twosComplement v.toInt).length

theorem Element.integerLength_le (v : Int32) : integerLength v ≤ 6 :=
  elementLength_mono (length_twosComplement_le 3 v.le_toInt v.toInt_lt)

theorem Element.exists_integer? (v : Int32) :
    ∃ o, integer? v = some o ∧ o.length = integerLength v := by
  have hcontent := length_twosComplement_le 3 v.le_toInt v.toInt_lt
  exact exists_octets?_of_le _ _ (Nat.le_trans hcontent (by decide))

/-- The size of the three numbers of a PDU. -/
def Pdu.numbersLength (p : Pdu) : Nat :=
  Element.integerLength p.requestId + Element.integerLength p.errorStatus +
    Element.integerLength p.errorIndex

namespace Message

/-- The size of version and community. -/
def headLength (m : Message) : Nat :=
  Element.integerLength m.version.code + elementLength m.community.length

/-- The size of a message around `n` octets of varbinds. -/
def frameLength (m : Message) (n : Nat) : Nat :=
  elementLength (m.headLength + elementLength (m.pdu.numbersLength + elementLength n))

variable {m : Message} {n : Nat}

theorem headLength_le (h : CommunityFits m.community) : m.headLength ≤ 71 := by
  have hversion := Element.integerLength_le m.version.code
  have hcommunity : elementLength m.community.length ≤ 65 := elementLength_mono h.2
  rw [headLength]
  omega

theorem numbersLength_le (p : Pdu) : p.numbersLength ≤ 18 := by
  have hid := Element.integerLength_le p.requestId
  have hstatus := Element.integerLength_le p.errorStatus
  have hindex := Element.integerLength_le p.errorIndex
  rw [Pdu.numbersLength]
  omega

/-- Around no varbinds, all three lengths take one octet. -/
theorem frameLength_zero (h : CommunityFits m.community) :
    m.frameLength 0 = m.headLength + m.pdu.numbersLength + 6 := by
  have hhead := headLength_le h
  have hnumbers := numbersLength_le m.pdu
  simp only [frameLength, elementLength, Length.size]
  split_ifs <;> omega

/-- Three lengths grow by two octets each, at most. -/
theorem frameLength_le (h : CommunityFits m.community) :
    m.frameLength n ≤ m.frameLength 0 + n + 6 := by
  rw [frameLength_zero h]
  simp only [frameLength, elementLength, Length.size]
  split_ifs <;> omega

/-- Around more than 255 octets, all three have grown. -/
theorem frameLength_eq (h : CommunityFits m.community) (hn : 255 < n) :
    m.frameLength n = m.frameLength 0 + n + 6 := by
  rw [frameLength_zero h]
  simp only [frameLength, elementLength, Length.size]
  split_ifs <;> omega

theorem le_frameLength (m : Message) (n : Nat) : n ≤ m.frameLength n := by
  have houter := le_elementLength (m.headLength + elementLength (m.pdu.numbersLength +
    elementLength n))
  have hpdu := le_elementLength (m.pdu.numbersLength + elementLength n)
  have hlist := le_elementLength n
  rw [frameLength]
  omega

/-- A message whose predicted size has the form of a length can be written. -/
theorem exists_frame? {list : List UInt8} (h : m.frameLength list.length ≤ Length.max) :
    ∃ o, m.frame? (some list) = some o := by
  -- No content inside is longer than the whole message.
  have houter := le_elementLength (m.headLength + elementLength (m.pdu.numbersLength +
    elementLength list.length))
  have hpdu := le_elementLength (m.pdu.numbersLength + elementLength list.length)
  have hlist := le_elementLength list.length
  have hcommunity := le_elementLength m.community.length
  have hhead : m.headLength = Element.integerLength m.version.code +
    elementLength m.community.length := rfl
  rw [frameLength] at h
  obtain ⟨version, hversion, hversion'⟩ := Element.exists_integer? m.version.code
  obtain ⟨community, hcommunity, hcommunity'⟩ := Element.exists_octets?_of_le Tag.octetString
    m.community (by omega)
  obtain ⟨id, hid, hid'⟩ := Element.exists_integer? m.pdu.requestId
  obtain ⟨status, hstatus, hstatus'⟩ := Element.exists_integer? m.pdu.errorStatus
  obtain ⟨index, hindex, hindex'⟩ := Element.exists_integer? m.pdu.errorIndex
  obtain ⟨varbinds, hvarbinds, hvarbinds'⟩ := Element.exists_octets?_of_le Tag.sequence
    list (by omega)
  have hnumbers : (id ++ status ++ index ++ varbinds).length =
      m.pdu.numbersLength + elementLength list.length := by
    simp only [List.length_append, Pdu.numbersLength]
    omega
  obtain ⟨pdu, hpdu, hpdu'⟩ := Element.exists_octets?_of_le m.pdu.type.tag
    (id ++ status ++ index ++ varbinds) (by omega)
  rw [hnumbers] at hpdu'
  obtain ⟨o, ho, -⟩ := Element.exists_octets?_of_le Tag.sequence
    (version ++ community ++ pdu) (by simp only [List.length_append]; omega)
  refine ⟨o, ?_⟩
  rw [frame?, Pdu.frame?, hversion, hcommunity, hid, hstatus, hindex, Option.bind_some, hvarbinds]
  exact (congrArg (fun p => (append? (some (version ++ community)) p).bind _) hpdu).trans ho

/-- The size of a message is as predicted. -/
theorem length_of_frame? {list o : List UInt8} (h : m.frame? (some list) = some o) :
    o.length = m.frameLength list.length := by
  obtain ⟨content, hcontent, ho⟩ := Option.bind_eq_some_iff.1 h
  obtain ⟨head, pdu, hhead, hpdu, rfl⟩ := append?_eq_some.1 hcontent
  obtain ⟨version, community, hversion, hcommunity, rfl⟩ := append?_eq_some.1 hhead
  obtain ⟨content, hcontent, hpdu⟩ := Option.bind_eq_some_iff.1 hpdu
  obtain ⟨numbers, varbinds, hnumbers, hvarbinds, rfl⟩ := append?_eq_some.1 hcontent
  obtain ⟨pair, index, hpair, hindex, rfl⟩ := append?_eq_some.1 hnumbers
  obtain ⟨id, status, hid, hstatus, rfl⟩ := append?_eq_some.1 hpair
  rw [Element.length_of_octets? ho, List.length_append, List.length_append,
    Element.length_of_octets? hversion, Element.length_of_octets? hcommunity,
    Element.length_of_octets? hpdu, List.length_append, List.length_append, List.length_append,
    Element.length_of_octets? hid, Element.length_of_octets? hstatus,
    Element.length_of_octets? hindex, Element.length_of_octets? hvarbinds]
  rfl

end Message

/-! ## Counting bindings -/

namespace Response

/-- The predicted size of some bindings. -/
def predicted (bs : List Binding) : Nat := (bs.map Binding.encodedLength).sum

theorem predicted_cons (b : Binding) (bs : List Binding) :
    predicted (b :: bs) = b.encodedLength + predicted bs := by
  rw [predicted, List.map_cons, List.sum_cons, predicted]

/-- The bindings counted fit into the budget, and no more of them do. -/
theorem isGreatest_countWithin (budget : Nat) (bs : List Binding) :
    IsGreatest {k | k ≤ bs.length ∧ predicted (bs.take k) ≤ budget} (countWithin budget bs) := by
  -- The budget is what the bindings taken so far have left.
  induction bs generalizing budget with
  | nil => exact ⟨⟨Nat.le_refl 0, Nat.zero_le _⟩, fun k hk => hk.1⟩
  | cons b bs ih =>
    obtain ⟨⟨hlen, hsum⟩, hgreatest⟩ := ih (budget - b.encodedLength)
    rw [countWithin]
    split_ifs with hb
    · refine ⟨⟨Nat.succ_le_succ hlen, ?_⟩, ?_⟩
      · rw [List.take_succ_cons, predicted_cons]
        omega
      · rintro (_ | k) ⟨hk, hpredicted⟩
        · exact Nat.zero_le _
        · rw [List.take_succ_cons, predicted_cons] at hpredicted
          exact Nat.succ_le_succ (hgreatest ⟨Nat.le_of_succ_le_succ hk, by omega⟩)
    · refine ⟨⟨Nat.zero_le _, Nat.zero_le _⟩, ?_⟩
      rintro (_ | k) ⟨-, hpredicted⟩
      · exact Nat.le_refl 0
      · rw [List.take_succ_cons, predicted_cons] at hpredicted
        omega

/-- The elements of bindings have the predicted size together. -/
theorem length_flatten {bs : List Binding} {items : List (List UInt8)}
    (h : bs.map Binding.octets? = items.map some) : items.flatten.length = predicted bs := by
  induction bs generalizing items with
  | nil =>
    rw [List.map_eq_nil_iff.1 h.symm]
    rfl
  | cons b bs ih =>
    cases items with
    | nil => cases h
    | cons o items =>
      obtain ⟨ho, hitems⟩ := List.cons.inj h
      rw [List.flatten_cons, List.length_append, ih hitems, Binding.length_of_octets? ho,
        predicted_cons]

/-- Bindings of moderate predicted size have elements. -/
theorem exists_items {bs : List Binding} (h : predicted bs ≤ Length.max) :
    ∃ items : List (List UInt8), bs.map Binding.octets? = items.map some := by
  induction bs with
  | nil => exact ⟨[], rfl⟩
  | cons b bs ih =>
    rw [predicted_cons] at h
    obtain ⟨o, ho⟩ := Binding.exists_octets? (b := b) (by omega)
    obtain ⟨items, hitems⟩ := ih (by omega)
    exact ⟨o :: items, by rw [List.map_cons, List.map_cons, ho, hitems]⟩

variable {r : Response} {request : Message} {o : List UInt8}

/-- The size of a reply is as predicted. -/
theorem length_of_octets? (h : r.octets? request = some o) :
    o.length = (r.header request).frameLength (predicted r.bindings) := by
  obtain ⟨items, hitems, hframe⟩ := octets?_eq_some.1 h
  rw [Message.length_of_frame? hframe, length_flatten hitems]

/-- A reply whose predicted size has the form of a length can be written. -/
theorem exists_octets? (h : (r.header request).frameLength (predicted r.bindings) ≤ Length.max) :
    ∃ o, r.octets? request = some o := by
  have hle := Message.le_frameLength (r.header request) (predicted r.bindings)
  obtain ⟨items, hitems⟩ := exists_items (Nat.le_trans hle h)
  rw [← length_flatten hitems] at h
  obtain ⟨o, ho⟩ := Message.exists_frame? h
  exact ⟨o, octets?_eq_some.2 ⟨items, hitems, ho⟩⟩

/-! ## The bindings kept -/

/-- A reply fits into a limit if its octets do. -/
def Fits (r : Response) (request : Message) (limit : Nat) : Prop :=
  ∃ o, r.encode request none = .ok o ∧ o.length ≤ limit

/-- Whether a reply fits is told by its predicted size. -/
theorem fits_iff {limit : Nat} (hlimit : limit ≤ Length.max) : r.Fits request limit ↔
    (r.header request).frameLength (predicted r.bindings) ≤ limit := by
  constructor
  · rintro ⟨o, ho, hle⟩
    rwa [← length_of_octets? (encode_none_eq_ok_iff.1 ho)]
  · intro h
    obtain ⟨o, ho⟩ := exists_octets? (Nat.le_trans h hlimit)
    exact ⟨o, encode_none_eq_ok_iff.2 ho, by rwa [length_of_octets? ho]⟩

theorem exists_encode_of_fits {limit : Nat} (h : r.Fits request limit) :
    ∃ o, r.encode request (some limit) = .ok o := by
  obtain ⟨o, ho, hle⟩ := h
  exact ⟨o, encode_eq_ok_iff.2 ⟨encode_none_eq_ok_iff.1 ho, hle⟩⟩

/-- Bindings within the budget fit, and bindings that fit are within the
    budget. -/
theorem fits_iff_budget (h : Message.CommunityFits request.community) :
    r.Fits request maxPacketSize ↔ predicted r.bindings ≤
      maxPacketSize - ((r.header request).frameLength 0 + 6) := by
  have hzero := Message.frameLength_zero (m := r.header request) h
  have hhead := Message.headLength_le (m := r.header request) h
  have hnumbers := Message.numbersLength_le (r.header request).pdu
  have hle := Message.frameLength_le (n := predicted r.bindings) (m := r.header request) h
  rw [fits_iff (by decide), maxPacketSize]
  constructor
  · intro hfits
    -- A reply that would miss the budget has so many octets that all lengths have grown.
    by_cases hn : 255 < predicted r.bindings
    · rw [Message.frameLength_eq (m := r.header request) h hn] at hfits
      omega
    · omega
  · omega

/-- A reply that fits is written as it is. -/
theorem encodeAtMost_of_fits {n : Nat} {limit : Nat}
    (h : (r.take n).encode request (some limit) = .ok o) :
    r.encodeAtMost request limit n = .ok o := by
  cases n with
  | zero => exact h
  | succ n => rw [encodeAtMost, h]

/-- The most leading bindings that fit are those within the budget. -/
theorem isGreatest_fits (r : Response) {request : Message}
    (h : Message.CommunityFits request.community) :
    IsGreatest {k | k ≤ r.bindings.length ∧ (r.take k).Fits request maxPacketSize}
      (countWithin (maxPacketSize - ((r.header request).frameLength 0 + 6)) r.bindings) := by
  -- The estimate asks of a prefix what it takes to fit, and nothing else.
  have hset : {k | k ≤ r.bindings.length ∧ (r.take k).Fits request maxPacketSize} =
      {k | k ≤ r.bindings.length ∧ predicted (r.bindings.take k) ≤
        maxPacketSize - ((r.header request).frameLength 0 + 6)} := by
    ext k
    exact and_congr_right fun _ => fits_iff_budget (r := r.take k) h
  rw [hset]
  exact isGreatest_countWithin _ r.bindings

/-- A bulk reply keeps the most leading bindings that fit. -/
theorem encodeFitting_eq (r : Response) {request : Message}
    (h : Message.CommunityFits request.community) :
    ∃ k o, IsGreatest {k | k ≤ r.bindings.length ∧ (r.take k).Fits request maxPacketSize} k ∧
      (r.take k).encode request (some maxPacketSize) = .ok o ∧
      r.encodeFitting request maxPacketSize = .ok o := by
  have hgreatest := r.isGreatest_fits h
  obtain ⟨envelope, henvelope⟩ :=
    exists_encode_of_fits ((fits_iff_budget (r := r.take 0) h).2 (Nat.zero_le _))
  have hsize : envelope.length = (r.header request).frameLength 0 :=
    length_of_octets? (r := r.take 0) (encode_eq_ok_iff.1 henvelope).1
  obtain ⟨o, ho⟩ := exists_encode_of_fits hgreatest.1.2
  have hfitting : r.encodeFitting request maxPacketSize = .ok o := by
    rw [encodeFitting, except_bind_eq_ok]
    refine ⟨envelope, henvelope, ?_⟩
    rw [hsize]
    exact encodeAtMost_of_fits ho
  exact ⟨_, o, hgreatest, ho, hfitting⟩

end Response

end SnmpAgent
