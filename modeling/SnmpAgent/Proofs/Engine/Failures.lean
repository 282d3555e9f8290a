import SnmpAgent.Proofs.Engine.Replies
import SnmpAgent.Proofs.Message.Sizes

/-!
# Failures

A request to change a variable is refused, and a request of the first version
for a missing variable fails. The reply gives back the names without their
values, and with a status and a position of one octet each. All of this was in
the packet already, in forms that are no shorter, so there is always room for
the reply where there was room for the packet.

* `Misses`, `Fails`: which requests fail;
* `responseTo_of_fails`: the reply to a request that fails;
* `process_failure`: it is sent, and is no longer than the request.
-/

namespace SnmpAgent

open Integer

/-- A number of eight bits has an element of three octets. -/
theorem Element.integerLength_le_three {v : Int32} (hl : -128 ≤ v.toInt) (hu : v.toInt < 128) :
    integerLength v ≤ 3 :=
  elementLength_mono (length_twosComplement_le 0 (by omega) (by omega))

namespace Engine

/-- A name has no variable: asked for alone, nothing is found. -/
def Misses (find : Oid → Answering (Option Binding)) (store : MibStore) (oid : Oid) : Prop :=
  ∃ l : Lookup, find oid (Lookup.start store) = .ok none l

/-- The requests that fail: all that ask for a change, and those of the first
    version that name a missing variable. -/
inductive Fails (source : Nat → Snapshot) (store : MibStore) (request : Message) : Prop where
  | set (htype : request.pdu.type = .setRequest)
  | get (htype : request.pdu.type = .getRequest) (hversion : request.version = .v1) {oid : Oid}
      (hname : oid ∈ names request.pdu) (hmisses : Misses (Lookup.exact source) store oid)
  | getNext (htype : request.pdu.type = .getNextRequest) (hversion : request.version = .v1)
      {oid : Oid} (hname : oid ∈ names request.pdu)
      (hmisses : Misses (Lookup.next source) store oid)

variable {source : Nat → Snapshot} {store : MibStore} {request : Message}

/-- What is missing is not in the blank store. -/
theorem Misses.eq_none {find : Oid → Answering (Option Binding)} {oid : Oid} {b : Option Binding}
    (h : Misses find store oid) (hfind : Gives source store.blank (source 0) (find oid) b) :
    b = none := by
  obtain ⟨l, hl⟩ := h
  obtain ⟨l', hl', -⟩ := hfind _ (Lookup.keeps_start source store)
  cases hl.symm.trans hl'
  rfl

/-- Without a marker, a name for which nothing is found is at fault, or one
    before it. -/
theorem exists_answers_eq_error {find : Oid → Option Binding} {oids : List Oid} {oid : Oid}
    (hmem : oid ∈ oids) (hnone : find oid = none) (position : Nat) :
    ∃ i, answers find none position oids = .error i := by
  cases h : answers find none position oids with
  | error i => exact ⟨i, rfl⟩
  | ok bs =>
    have hfound := isSome_of_answers h oid hmem
    rw [hnone] at hfound
    cases hfound

/-- What is answered is a failure, whose status and position are small. -/
def IsSmallFailure (request : Message) (r? : Option Response) : Prop :=
  ∃ (status : ErrorStatus) (index : Nat), status ∈ [.noSuchName, .notWritable] ∧
    index ≤ maxRequestVarbinds ∧ r? = some (Response.failure request.pdu status index)

theorem isSmallFailure_reply {find : Oid → Option Binding} {oid : Oid}
    (hcount : request.pdu.varbinds.length ≤ maxRequestVarbinds) (hmem : oid ∈ names request.pdu)
    (hnone : find oid = none) :
    IsSmallFailure request (some (reply request.pdu (answers find none 1 (names request.pdu)))) := by
  obtain ⟨i, hi⟩ := exists_answers_eq_error hmem hnone 1
  obtain ⟨-, hle⟩ := answers_eq_error hi
  rw [names, List.length_map] at hle
  rw [hi]
  exact ⟨.noSuchName, i, by simp, by omega, rfl⟩

/-- A request that fails is answered with a failure. -/
theorem responseTo_of_fails (hcount : request.pdu.varbinds.length ≤ maxRequestVarbinds)
    (h : Fails source store request) :
    IsSmallFailure request (responseTo store.blank (source 0) request) := by
  rw [responseTo]
  cases h with
  | set htype =>
    rw [htype]
    refine ⟨_, _, ?_, ?_, rfl⟩
    · cases request.version <;> simp
    · split_ifs <;> decide
  | get htype hversion hname hmisses =>
    rw [htype, hversion]
    exact isSmallFailure_reply hcount hname (hmisses.eq_none (Lookup.gives_exact _))
  | getNext htype hversion hname hmisses =>
    rw [htype, hversion]
    exact isSmallFailure_reply hcount hname (hmisses.eq_none (Lookup.gives_next _))

/-- There is room for a failure wherever there was room for a packet with the
    same names. -/
theorem exists_encode_failure {packet : List UInt8} {max : Nat}
    (hform : Message.Form max packet request) (hlength : packet.length ≤ maxPacketSize)
    {status : ErrorStatus} (hstatus : status ∈ [.noSuchName, .notWritable]) {index : Nat}
    (hindex : index ≤ maxRequestVarbinds) : ∃ octets : List UInt8,
      (Response.failure request.pdu status index).encode request maxPacketSize = .ok octets ∧
        octets.length ≤ packet.length := by
  have hstatus' : -128 ≤ status.code.toInt ∧ status.code.toInt < 128 := by
    simp only [List.mem_cons, List.not_mem_nil, or_false] at hstatus
    obtain rfl | rfl := hstatus <;> decide
  have hindex' : (Int32.ofNat index).toInt = index :=
    Int32.toInt_ofNat_of_lt (Nat.lt_of_le_of_lt hindex (by decide))
  rw [maxRequestVarbinds] at hindex
  have hpredicted := hform.frameLength_le
    (q := ((Response.failure request.pdu status index).header request).pdu) rfl
    (Element.integerLength_le_three hstatus'.1 hstatus'.2)
    (Element.integerLength_le_three (v := Int32.ofNat index) (by omega) (by omega))
  obtain ⟨octets, hoctets⟩ := Response.exists_encode_of_fits
    ((Response.fits_iff (by decide)).2 (Nat.le_trans hpredicted hlength))
  refine ⟨octets, hoctets, ?_⟩
  rw [Response.length_of_octets? (Response.encode_eq_ok_iff.1 hoctets).1]
  exact hpredicted

/-- The reply to a request that fails is always sent, and it is no longer than
    the request: it says nothing that the request did not say in as many
    octets. -/
theorem process_failure {config : AgentConfig} {host : Host} {store : MibStore}
    {packet : List UInt8} {request : Message}
    (hdecode : Message.decode packet maxRequestVarbinds = .ok request)
    (hadmits : admits config request) (hlength : packet.length ≤ maxPacketSize)
    (hfails : Fails (fun turn => host turn config.interfaces config.disks) store request)
    (peer : SocketAddr) : ∃ (status : ErrorStatus) (index : Nat) (octets : List UInt8),
      status ∈ [.noSuchName, .notWritable] ∧
      (Response.failure request.pdu status index).encode request maxPacketSize = .ok octets ∧
      (process config host store packet peer).result = .ok (some octets) ∧
      octets.length ≤ packet.length := by
  obtain ⟨status, index, hstatus, hindex, hresponse⟩ :=
    responseTo_of_fails (Message.received_of_decode hdecode).count hfails
  obtain ⟨octets, hoctets, hle⟩ :=
    exists_encode_failure (Message.decode_eq_ok_iff.1 hdecode) hlength hstatus hindex
  refine ⟨status, index, octets, hstatus, hoctets, ?_, hle⟩
  have hbulk : request.pdu.type ≠ .getBulkRequest := by
    intro hbulk
    cases hfails with
    | set htype | get htype | getNext htype => exact absurd (htype.symm.trans hbulk) (by decide)
  refine process_of_responseTo hdecode hadmits hresponse ?_ peer
  rw [encodeReply, if_neg hbulk, hoctets]

/-- The message of a first-version request for what comes after 1.3.6.1.5. -/
def pastEndMessage : Message :=
  ⟨.v1, [0x70, 0x75, 0x62, 0x6C, 0x69, 0x63],
    ⟨.getNextRequest, 1, 0, 0, [⟨⟨[1, 3, 6, 1, 5]⟩, .null⟩]⟩⟩

/-- Octets of that message, in which the lengths of all containers, the request
    id and the last arc take more octets than they need. -/
def pastEndRequest : List UInt8 :=
  [0x30, 0x81, 0x28, 0x02, 0x01, 0x00, 0x04, 0x06, 0x70, 0x75, 0x62, 0x6C, 0x69, 0x63, 0xA1, 0x82,
    0x00, 0x19, 0x02, 0x02, 0x00, 0x01, 0x02, 0x01, 0x00, 0x02, 0x01, 0x00, 0x30, 0x81, 0x0C, 0x30,
    0x81, 0x09, 0x06, 0x05, 0x2B, 0x06, 0x01, 0x80, 0x05, 0x05, 0x00]

/-- Nothing comes after the standard variables, and an agent says so in no more
    octets than it was asked in. -/
theorem process_pastEndRequest : Message.decode pastEndRequest maxRequestVarbinds =
      .ok pastEndMessage ∧ pastEndRequest.length ≤ maxPacketSize ∧
    ∃ m : MibStore, MibStore.build (standardDefinitions {} {}) {} maxValues = .ok m ∧
      Fails (fun turn => Host.static {} turn [] ["/"]) m pastEndMessage ∧
      ∃ (status : ErrorStatus) (index : Nat) (octets : List UInt8),
        status ∈ [.noSuchName, .notWritable] ∧
        (Response.failure pastEndMessage.pdu status index).encode pastEndMessage maxPacketSize =
          .ok octets ∧
        (process {} (Host.static {}) m pastEndRequest (.v4 ⟨127, 0, 0, 1⟩ 40000)).result =
          .ok (some octets) ∧
        octets.length ≤ pastEndRequest.length := by
  have hdecode : Message.decode pastEndRequest maxRequestVarbinds = .ok pastEndMessage := rfl
  have hlength : pastEndRequest.length ≤ maxPacketSize := by decide
  have hsearch : (do
      let m ← MibStore.build (standardDefinitions {} {}) {} maxValues
      return m.findNext? ⟨[1, 3, 6, 1, 5]⟩) = .ok none := by
    decide +kernel
  obtain ⟨m, hm, hnext⟩ := except_bind_eq_ok.1 hsearch
  have hfails : Fails (fun turn => Host.static {} turn [] ["/"]) m pastEndMessage := by
    refine .getNext rfl rfl List.mem_cons_self ⟨Lookup.start m, ?_⟩
    rw [Lookup.next, get_bind, Lookup.start, Except.ok.inj hnext]
    rfl
  exact ⟨hdecode, hlength, m, hm, hfails, process_failure hdecode (by decide) hlength hfails _⟩

end Engine

end SnmpAgent
