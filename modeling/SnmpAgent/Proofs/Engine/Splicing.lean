import SnmpAgent.Proofs.Engine.Encoding

/-!
# Splicing

A reply is put together from the elements of its values as they are stored,
and a message from the values themselves. The two are written by different
writers, which look at the limit of the buffer at different points: a stored
element is put in front as a whole, an encoded one content first. Their
outputs are the same nevertheless, and an output either fits into a limit or
does not.

* `Binding.Splices`: a binding holds the element of the value of a varbind;
* `Response.octets?_eq_of_splices`: a reply has the octets of the message with
  these varbinds;
* `Response.encode_eq_ok_iff_of_splices`: so they are written within the same
  limits, and as the same octets.
-/

namespace SnmpAgent

/-- A binding holds the name of a varbind and the element of its value. -/
structure Binding.Splices (b : Binding) (v : VarBind) : Prop where
  name : b.oid = v.oid
  value : v.value.tlv = .ok b.value

/-- The element of the binding is the element of the varbind. -/
theorem Binding.Splices.octets?_eq {b : Binding} {v : VarBind} (h : b.Splices v) :
    b.octets? = VarBind.element? v.oid (Element.octets? v.value.tag v.value.content) := by
  rw [Binding.octets?, h.name, Value.tlv_eq_ok.1 h.value]

namespace Response

variable {r : Response} {vs : List VarBind}

/-- A reply has the octets of the message that carries its varbinds. -/
theorem octets?_eq_of_splices (h : List.Forall₂ Binding.Splices r.bindings vs) (request : Message) :
    r.octets? request = (Message.mk request.version request.community
      (.response r.requestId r.errorStatus r.errorIndex vs)).octets? := by
  have helements : r.bindings.map Binding.octets? = vs.map fun v =>
      VarBind.element? v.oid (Element.octets? v.value.tag v.value.content) := by
    rw [← List.forall₂_eq_eq_eq, List.forall₂_map_left_iff, List.forall₂_map_right_iff]
    exact h.imp fun _ _ hsplices => hsplices.octets?_eq
  -- The frame looks at no varbind, so it is the one of the header.
  rw [octets?, helements]
  rfl

/-- A reply whose stored elements are those of some values is written within a
    limit exactly if the message with these values is, and then as the same
    octets. -/
theorem encode_eq_ok_iff_of_splices (h : List.Forall₂ Binding.Splices r.bindings vs)
    (request : Message) (limit : Option Nat) (octets : List UInt8) :
    r.encode request limit = .ok octets ↔
      (Message.mk request.version request.community
        (.response r.requestId r.errorStatus r.errorIndex vs)).encode limit = .ok octets := by
  rw [encode, (r.writes_write request).run_eq_ok_iff, Message.encode,
    (Message.writes_write _).run_eq_ok_iff, octets?_eq_of_splices h]

/-- The reply with a string, a name, negative and large numbers and a marker is
    written from stored elements as it is from values: in 401 octets, and not in
    one octet less. -/
theorem encode_mixedReply : ∃ (r : Response) (octets : List UInt8),
    List.Forall₂ Binding.Splices r.bindings Message.mixedReply.pdu.varbinds ∧
      octets.length = 401 ∧ r.encode Message.mixedReply (some 401) = .ok octets ∧
      Message.mixedReply.encode (some 401) = .ok octets ∧
      ¬r.encode Message.mixedReply (some 400) = .ok octets := by
  have hvalues : ∀ v ∈ Message.mixedReply.pdu.varbinds, v.value.tlv.isOk := by decide +kernel
  have hsplices : List.Forall₂ Binding.Splices (Message.mixedReply.pdu.varbinds.map fun v =>
      ⟨v.oid, v.value.tlv.toOption.getD []⟩) Message.mixedReply.pdu.varbinds := by
    rw [List.forall₂_map_left_iff, List.forall₂_same]
    intro v hv
    obtain ⟨element, helement⟩ := exists_eq_ok_of_isOk (hvalues v hv)
    exact ⟨rfl, by rw [helement]; rfl⟩
  have hoctets : (Message.mixedReply.encode (some 401)).map List.length = .ok 401 := by
    decide +kernel
  obtain ⟨octets, hencode, hlength⟩ := except_bind_eq_ok.1 hoctets
  have hreply := encode_eq_ok_iff_of_splices
    (r := Response.success (-2147483648) _) hsplices Message.mixedReply
  refine ⟨_, octets, hsplices, Except.ok.inj hlength, (hreply _ _).2 hencode, hencode, ?_⟩
  intro hshort
  have hle := (encode_eq_ok_iff.1 hshort).2
  rw [Except.ok.inj hlength] at hle
  exact absurd hle (by decide)

end Response

end SnmpAgent
