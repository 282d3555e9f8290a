import SnmpAgent.Proofs.Message.Codec
import SnmpAgent.Engine.Response

/-!
# Replies on the wire

A reply is the frame of its header around its bindings. Its size follows from
the sizes of the bindings: the lengths of the list, of the PDU and of the
message each take one octet in a reply without bindings, and at most three in
any other. What a manager reads in it is what its bindings denote.

* `writes_write`: the octets of a binding and of a reply;
* `Binding.predictions_exact`: which bindings are written, and in how many octets;
* `Response.encode_eq_ok_iff`: what a limit does to a reply;
* `Response.length_of_octets?`: the size of a reply, predicted;
* `Response.decode_of_encode`: the reply that is read from its octets.
-/

namespace SnmpAgent

open Integer
open Binding (elementLength)

/-- A content whose length can be written has an element, of the predicted
    size. -/
theorem Element.exists_octets?_of_le (t : Tag) (content : List UInt8)
    (h : content.length ≤ Length.max) :
    ∃ o, octets? t content = some o ∧ o.length = elementLength content.length := by
  obtain ⟨o, ho⟩ := exists_octets?_iff.2 h
  exact ⟨o, ho, length_of_octets? ho⟩

/-! ## Bindings -/

namespace Binding

/-- The element of a binding. -/
def octets? (b : Binding) : Option (List UInt8) := VarBind.element? b.oid (some b.value)

theorem writes_write (b : Binding) : Writes b.write b.octets? :=
  Writer.writes_constructed _ ((Writer.writes_push b.value).bind (Writer.writes_element _ _))

/-- The predicted size of a binding is exact. -/
theorem length_of_octets? {b : Binding} {o : List UInt8} (h : b.octets? = some o) :
    o.length = b.encodedLength := by
  obtain ⟨content, hc, ho⟩ := Option.bind_eq_some_iff.1 h
  obtain ⟨name, value, hname, hvalue, rfl⟩ := append?_eq_some.1 hc
  cases hvalue
  have hlen : name.length = elementLength b.oid.contentLength := by
    rw [Element.length_of_octets? hname, Oid.length_content, elementLength]
  rw [Element.length_of_octets? ho, List.length_append, hlen, encodedLength]
  rfl

/-- There is an element exactly where the content of the name, and with the
    element of the name the content of the binding, have lengths that can be
    written. -/
theorem exists_octets?_iff {b : Binding} : (∃ o, b.octets? = some o) ↔
    b.oid.content.length ≤ Length.max ∧
      ∀ name, Element.octets? Tag.objectIdentifier b.oid.content = some name →
        (name ++ b.value).length ≤ Length.max := by
  rw [← Element.exists_octets?_iff (t := Tag.objectIdentifier)]
  constructor
  · rintro ⟨o, h⟩
    obtain ⟨content, hc, ho⟩ := Option.bind_eq_some_iff.1 h
    obtain ⟨name, value, hname, hvalue, rfl⟩ := append?_eq_some.1 hc
    cases hvalue
    refine ⟨⟨name, hname⟩, fun name' hname' => ?_⟩
    rw [hname, Option.some.injEq] at hname'
    rw [← hname']
    exact Element.exists_octets?_iff.1 ⟨o, ho⟩
  · rintro ⟨⟨name, hname⟩, hcontent⟩
    obtain ⟨o, ho⟩ := (Element.exists_octets?_iff (t := Tag.sequence)).2 (hcontent name hname)
    exact ⟨o, Option.bind_eq_some_iff.2
      ⟨name ++ b.value, append?_eq_some.2 ⟨name, b.value, hname, rfl, rfl⟩, ho⟩⟩

/-- A binding of moderate predicted size has an element. -/
theorem exists_octets? {b : Binding} (h : b.encodedLength ≤ Length.max) :
    ∃ o, b.octets? = some o := by
  have hcontent : elementLength b.oid.contentLength + b.value.length ≤ b.encodedLength := by
    rw [encodedLength, elementLength.eq_def (elementLength _ + _)]
    omega
  have hname : b.oid.contentLength ≤ elementLength b.oid.contentLength := by
    rw [elementLength]
    omega
  refine exists_octets?_iff.2 ⟨by rw [Oid.length_content]; omega, fun name hoctets => ?_⟩
  have hlength := Element.length_of_octets? hoctets
  rw [Oid.length_content] at hlength
  rw [elementLength] at hcontent
  rw [List.length_append]
  omega

/-- The predictions are exact. They are for the content of every name, valid or
    not. A binding with any octets for its value is put into a buffer without
    limit exactly if the content of its name and its own content, the element of
    the name and the value, have at most 65535 octets. Then the predicted number
    of octets stands in front of those that were there. -/
theorem predictions_exact {buf : Buffer} (h : buf.limit = none) :
    (∀ oid : Oid, oid.contentLength = oid.content.length) ∧
    ∀ b : Binding,
      ((∃ buf', b.write buf = .ok () buf') ↔ b.oid.content.length ≤ 65535 ∧
        ∀ name, (Writer.oid b.oid).run none = .ok name → (name ++ b.value).length ≤ 65535) ∧
      ∀ buf', b.write buf = .ok () buf' → ∃ o, o.length = b.encodedLength ∧
        buf'.octets = o ++ buf.octets ∧ buf'.size = buf.size + b.encodedLength := by
  refine ⟨fun oid => oid.length_content.symm, fun b => ⟨?_, fun buf' hwrite => ?_⟩⟩
  · have hname : ∀ name, (Writer.oid b.oid).run none = .ok name ↔
        Element.octets? Tag.objectIdentifier b.oid.content = some name :=
      fun name => (Writer.writes_element _ _).run_none_eq_ok_iff
    have hoctets := exists_octets?_iff (b := b)
    simp only [← hname] at hoctets
    simp only [b.writes_write.eq_ok_iff_of_unlimited h]
    constructor
    · rintro ⟨buf', o, ho, -⟩
      exact hoctets.1 ⟨o, ho⟩
    · intro hlengths
      obtain ⟨o, ho⟩ := hoctets.2 hlengths
      exact ⟨_, o, ho, rfl⟩
  · obtain ⟨o, ho, rfl⟩ := (b.writes_write.eq_ok_iff_of_unlimited h).1 hwrite
    have hlength := length_of_octets? ho
    exact ⟨o, hlength, rfl, by rw [← hlength, Nat.add_comm]; rfl⟩

/-- A name of one sub-identifier, which is not valid, with octets that are no
    element is put in front of a buffer in eleven octets, as predicted. -/
theorem predictions_exact_lone : ∃ buf : Buffer, buf.limit = none ∧
    encodedLength ⟨⟨[4294967295]⟩, [0xFF, 0xFF]⟩ = 11 ∧
    ∃ buf', write ⟨⟨[4294967295]⟩, [0xFF, 0xFF]⟩ buf = .ok () buf' ∧
      buf'.size = buf.size + encodedLength ⟨⟨[4294967295]⟩, [0xFF, 0xFF]⟩ := by
  obtain ⟨hwritten, hexact⟩ := (@predictions_exact ⟨[0x05, 0x00], none, 2, rfl⟩ rfl).2
    ⟨⟨[4294967295]⟩, [0xFF, 0xFF]⟩
  have hname : (Writer.oid ⟨[4294967295]⟩).run none =
      .ok [0x06, 0x05, 0x8F, 0xFF, 0xFF, 0xFF, 0x7F] := by decide +kernel
  obtain ⟨buf', hwrite⟩ := hwritten.2 ⟨by decide +kernel, fun name h => by
    rw [hname] at h
    cases h
    decide⟩
  obtain ⟨o, -, -, hsize⟩ := hexact buf' hwrite
  exact ⟨_, rfl, by decide +kernel, buf', hwrite, hsize⟩

/-- A binding denotes a varbind: a valid name and the element of a legible
    value, both as they are read back. -/
structure Denotes (b : Binding) (v : VarBind) : Prop where
  valid : b.oid.validate = .ok ()
  name : b.oid.repacked = v.oid
  value : ∃ w : Value, w.Legible ∧ w.tlv = .ok b.value ∧ w.repacked = v.value

/-- The element of a binding is read as the varbind that it denotes. -/
theorem Denotes.takes_read {b : Binding} {v : VarBind} {o : List UInt8} (h : b.Denotes v)
    (ho : b.octets? = some o) : Takes VarBind.read o v := by
  obtain ⟨w, hw, htlv, hv⟩ := h.value
  have hread := VarBind.takes_read ho h.valid hw htlv
  rwa [h.name, hv] at hread

/-- A marker under a valid name denotes the value of its type. -/
theorem denotes_marker {oid : Oid} (h : oid.validate = .ok ()) {w : Value} (hw : w.type.isMarker) :
    (marker oid w.type).Denotes ⟨oid.repacked, w⟩ := by
  have htlv : w.tlv = .ok [w.tag, 0] := by
    rw [Value.tlv_eq_ok, Value.content_of_isMarker hw]
    rfl
  exact ⟨h, rfl, w, Value.legible_of_isMarker hw, htlv, Value.repacked_of_isMarker hw⟩

/-- The elements of bindings are read, one by one, as the varbinds that the
    bindings denote. -/
theorem forall₂_takes_read {bs : List Binding} {vs : List VarBind} {items : List (List UInt8)}
    (h : List.Forall₂ Denotes bs vs) (hitems : bs.map octets? = items.map some) :
    List.Forall₂ (fun o v => o ≠ [] ∧ Takes VarBind.read o v) items vs := by
  induction h generalizing items with
  | nil =>
    rw [List.map_eq_nil_iff.1 hitems.symm]
    exact .nil
  | @cons b v bs vs hbv _ ih =>
    cases items with
    | nil => cases hitems
    | cons o items =>
      obtain ⟨ho, hitems⟩ := List.cons.inj hitems
      exact .cons ⟨VarBind.element?_ne_nil ho, hbv.takes_read ho⟩ (ih hitems)

end Binding

/-! ## Replies -/

namespace Response

/-- The message that answers a request, with room for the bindings. -/
def header (r : Response) (request : Message) : Message :=
  ⟨request.version, request.community, .response r.requestId r.errorStatus r.errorIndex []⟩

/-- The octets of a reply. -/
def octets? (r : Response) (request : Message) : Option (List UInt8) :=
  (r.header request).frame? (concat? (r.bindings.map Binding.octets?))

theorem writes_write (r : Response) (request : Message) :
    Writes (r.write request) (r.octets? request) :=
  Message.writes_frame (m := r.header request)
    (Writer.writes_inOrder fun b _ => b.writes_write)

variable {r : Response} {request : Message} {o : List UInt8} {limit : Nat}

theorem encode_eq_ok_iff :
    r.encode request (some limit) = .ok o ↔ r.octets? request = some o ∧ o.length ≤ limit := by
  simp [encode, (r.writes_write request).run_eq_ok_iff]

theorem encode_none_eq_ok_iff : r.encode request none = .ok o ↔ r.octets? request = some o :=
  (r.writes_write request).run_none_eq_ok_iff

/-- The octets of a reply hold the elements of its bindings. -/
theorem octets?_eq_some : r.octets? request = some o ↔ ∃ items : List (List UInt8),
    r.bindings.map Binding.octets? = items.map some ∧
      (r.header request).frame? (some items.flatten) = some o :=
  Message.frame?_concat?_eq_some

/-- A reply whose bindings denote varbinds is read as the reply with these
    varbinds. -/
theorem decode_of_encode {vs : List VarBind} {max : Nat}
    (h : r.encode request (some limit) = .ok o)
    (hrequest : Message.CommunityFits request.community)
    (hbindings : List.Forall₂ Binding.Denotes r.bindings vs) (hmax : r.bindings.length ≤ max) :
    Message.decode o max = .ok ⟨request.version, request.community,
      .response r.requestId r.errorStatus r.errorIndex vs⟩ := by
  obtain ⟨items, hitems, hframe⟩ := octets?_eq_some.1 (encode_eq_ok_iff.1 h).1
  have hlen : items.length = r.bindings.length := by
    simpa using (congrArg List.length hitems).symm
  exact Message.decode_frame (m := r.header request) hrequest hframe
    (VarBind.fills_readUpTo max (Binding.forall₂_takes_read hbindings hitems) (hlen ▸ hmax))

end Response

end SnmpAgent
