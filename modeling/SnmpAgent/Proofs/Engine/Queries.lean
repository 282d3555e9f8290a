import SnmpAgent.Proofs.Engine.Replies
import SnmpAgent.Proofs.Message.Sizes

/-!
# Single queries

A manager *asks* for one variable: it writes a request with one name, has it
processed by an agent, and reads the one varbind in the reply. Between the
manager and the agent there are only octets. A name that is read back as it is
always fits into a request, and what the agent found is what the manager reads.

* `Manager.ask`: one exchange of octets;
* `Manager.exists_packet`: every canonical name can be asked for;
* `Manager.ask_eq`: the manager reads what the agent found.
-/

namespace SnmpAgent.Manager

open Binding (elementLength)

/-- The request for one name, without a value. -/
def request (community : List UInt8) (id : Int32) (type : PduType) (oid : Oid) : Message :=
  ⟨.v2c, community, ⟨type, id, 0, 0, [⟨oid, .null⟩]⟩⟩

/-- The only varbind of a reply. -/
def readReply (octets : List UInt8) : Option VarBind :=
  match Message.decode octets maxValues with
  | .ok ⟨_, _, ⟨.response, _, _, _, [v]⟩⟩ => some v
  | _ => none

/-- Sends a request to an agent and reads the varbind in the reply, if there is
    one; also, what the request did to the store. -/
def ask (config : AgentConfig) (peer : SocketAddr) (host : Host) (store : MibStore)
    (request : Message) : Option VarBind × MibStore :=
  match request.encode (some maxPacketSize) with
  | .error _ => (none, store)
  | .ok packet =>
    let o := Engine.process config host store packet peer
    (match o.result with
      | .ok (some octets) => readReply octets
      | _ => none,
      o.store)

variable {config : AgentConfig} {peer : SocketAddr} {host : Host} {store : MibStore}
  {community : List UInt8} {id : Int32} {type : PduType} {oid : Oid}

/-- No query is seen in the blank store. -/
theorem reaches_ask (config : AgentConfig) (peer : SocketAddr) (host : Host) (store : MibStore)
    (request : Message) : Reaches store (ask config peer host store request).2 := by
  rw [ask]
  split
  · exact .refl
  · exact .single (.process config host store _ peer)

/-- A binding of a canonical name with two octets of value takes a small part of
    a packet. -/
theorem encodedLength_le (h : oid.Canonical) (value : List UInt8) (hvalue : value.length ≤ 2) :
    (⟨oid, value⟩ : Binding).encodedLength ≤ 101 := by
  have hcontent := h.contentLength_le
  have hname := elementLength_mono hcontent
  refine elementLength_mono (n := 99) ?_
  change elementLength oid.contentLength ≤ 97 at hname
  change elementLength oid.contentLength + value.length ≤ 99
  omega

/-- Around the varbinds of a message stand at most 101 octets. -/
theorem frameLength_le {m : Message} (h : Message.CommunityFits m.community) (n : Nat) :
    m.frameLength n ≤ n + 101 := by
  have hzero := Message.frameLength_zero h
  have hhead := Message.headLength_le h
  have hnumbers := Message.numbersLength_le m.pdu
  have hle := Message.frameLength_le h (n := n)
  omega

/-- The request for a canonical name has octets, which are read as that
    request. -/
theorem exists_packet (hcommunity : Message.CommunityFits community) (hoid : oid.Canonical)
    (id : Int32) (type : PduType) : ∃ packet,
      (request community id type oid).encode (some maxPacketSize) = .ok packet ∧
        Message.decode packet maxRequestVarbinds = .ok (request community id type oid) := by
  have hsize := encodedLength_le hoid [Tag.null, 0] (Nat.le_refl 2)
  obtain ⟨item, hitem⟩ := Binding.exists_octets? (Nat.le_trans hsize (by decide))
  rw [← Binding.length_of_octets? hitem] at hsize
  have hframe : (request community id type oid).frameLength [item].flatten.length ≤ 202 := by
    have hle := frameLength_le (m := request community id type oid) hcommunity
      [item].flatten.length
    rw [List.flatten_singleton] at hle ⊢
    omega
  obtain ⟨packet, hpacket⟩ := Message.exists_frame? (Nat.le_trans hframe (by decide))
  have hitems : (request community id type oid).pdu.varbinds.map (fun v =>
      VarBind.element? v.oid (Element.octets? v.value.tag v.value.content)) = [item].map some :=
    congrArg (fun o => [o]) hitem
  have hoctets : (request community id type oid).octets? = some packet :=
    Message.frame?_concat?_eq_some.2 ⟨[item], hitems, hpacket⟩
  refine ⟨packet, (Message.writes_write _).run_eq_ok_iff.2 ⟨hoctets, ?_⟩, ?_⟩
  · rintro limit ⟨⟩
    rw [Message.length_of_frame? hpacket]
    exact Nat.le_trans hframe (by decide)
  · have hcanonical : ∀ v ∈ (request community id type oid).pdu.varbinds, v.Canonical :=
      List.forall_mem_singleton.2 ⟨hoid, trivial⟩
    have hread := VarBind.forall₂_takes_read hcanonical hitems
    exact Message.decode_frame hcommunity hpacket
      (VarBind.fills_readUpTo maxRequestVarbinds hread (Nat.succ_pos _))

/-- A binding of moderate size fits into a reply. -/
theorem fits_of_encodedLength_le (hcommunity : Message.CommunityFits community) (id : Int32)
    (type : PduType) (oid : Oid) {b : Binding} (h : b.encodedLength ≤ 1947) :
    (Response.success id [b]).Fits (request community id type oid) maxPacketSize := by
  refine (Response.fits_iff (by decide)).2 ?_
  refine Nat.le_trans (frameLength_le (by exact hcommunity) _) ?_
  change b.encodedLength + 0 + 101 ≤ 2048
  omega

/-- What an agent finds for a name, if it fits into a reply, is what the manager
    reads. -/
theorem ask_eq (hcommunity : Message.CommunityFits community) (hoid : oid.Canonical)
    (hadmits : Engine.admits config (request community id type oid))
    (htype : type ≠ .getBulkRequest) {b : Binding} {v : VarBind}
    (hresponse : Engine.responseTo store.blank (host 0 config.interfaces config.disks)
      (request community id type oid) = some (Response.success id [b]))
    (hfits : (Response.success id [b]).Fits (request community id type oid) maxPacketSize)
    (hdenotes : b.Denotes v) :
    (ask config peer host store (request community id type oid)).1 = some v := by
  obtain ⟨packet, hencode, hdecode⟩ := exists_packet hcommunity hoid id type
  obtain ⟨octets, hoctets⟩ := Response.exists_encode_of_fits hfits
  have hencode' : Engine.encodeReply (request community id type oid)
      (Response.success id [b]) = .ok octets := (if_neg htype).trans hoctets
  have hread : Message.decode octets maxValues = .ok ⟨.v2c, community,
      .response id .noError 0 [v]⟩ :=
    Response.decode_of_encode hoctets hcommunity (.cons hdenotes .nil) (Nat.succ_pos _)
  rw [ask, hencode]
  dsimp only
  rw [Engine.process_of_responseTo hdecode hadmits hresponse hencode']
  dsimp only
  rw [readReply, hread]
  rfl

end SnmpAgent.Manager
