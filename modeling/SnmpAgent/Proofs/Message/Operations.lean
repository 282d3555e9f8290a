import SnmpAgent.Proofs.Message.Positions

/-!
# Operations in a container

A message is read piece by piece: octets, lengths, tags, contents, elements,
and whatever consists of them. Some operations open a container of their own.
What each of them gives tells about the octets of the message between the
offsets at which the cursor stood before and stands afterwards.

* `Cursor.StandsIn`: what is left of a container is a part of the message;
* `Recognises.of_standsIn`: what a reader takes stands in the message;
* `Reader.Operation`: what can be done in a container;
* `Reader.Operation.within_reader`, `Reader.Operation.tells_of_reader`: where
  the cursor goes, and what the result tells;
* `Reader.Operation.standsIn_of_opened?`: the containers that are opened.
-/

namespace SnmpAgent

variable {d : List UInt8} {c c' : Cursor}

/-! ## Cursors in a message -/

namespace Cursor

/-- The unread octets of a container are a part of the message. -/
structure StandsIn (d : List UInt8) (c : Cursor) : Prop where
  stop_le : c.stop ≤ d.length
  rest_eq : c.rest = d.extract c.offset c.stop

/-- The part of a message between two offsets is a container. -/
theorem standsIn_extract {lo hi : Nat} (hlo : lo ≤ hi) (hhi : hi ≤ d.length) :
    (⟨lo, d.extract lo hi⟩ : Cursor).StandsIn d := by
  have hstop : (⟨lo, d.extract lo hi⟩ : Cursor).stop = hi := by
    rw [stop, remaining, List.extract_eq_take_drop, List.length_take, List.length_drop]
    dsimp only
    omega
  exact ⟨hstop.trans_le hhi, by rw [hstop]⟩

theorem standsIn_ofMessage (d : List UInt8) : (ofMessage d).StandsIn d := by
  have h := standsIn_extract (d := d) (Nat.zero_le _) (Nat.le_refl _)
  rwa [List.extract_eq_take_drop, List.drop_zero, Nat.sub_zero, List.take_length] at h

/-- Further on in the container the cursor still stands in the message. -/
theorem LeadsTo.standsIn (h : c.LeadsTo c') (hc : c.StandsIn d) : c'.StandsIn d := by
  have hstop := h.offset_le.2
  refine ⟨hstop.trans_le hc.stop_le, ?_⟩
  obtain ⟨n, hn, rfl⟩ := h
  rw [hstop]
  simp only [skip, hc.rest_eq, List.extract_eq_take_drop, List.drop_take, List.drop_drop]
  congr 1
  omega

end Cursor

/-- What a reader takes is what stands in the message from where it begins to
    where it ends. -/
theorem Recognises.of_standsIn {α : Type} {r : Reader α} {F : List UInt8 → α → Prop} {a : α}
    (h : Recognises r F) (hc : c.StandsIn d) (hr : r c = .ok a c') :
    F (d.extract c.offset c'.offset) a := by
  obtain ⟨o, rest, ho, hrest, rfl⟩ := (h c.offset c.rest a c').1 hr
  have htake : o = d.extract c.offset (c.offset + o.length) := by
    have hlength : o.length ≤ c.stop - c.offset := by
      rw [Cursor.stop, Cursor.remaining, hrest, List.length_append]
      omega
    calc o = c.rest.take o.length := by rw [hrest, List.take_left]
      _ = d.extract c.offset (c.offset + o.length) := by
        rw [hc.rest_eq, List.extract_eq_take_drop, List.extract_eq_take_drop, List.take_take,
          Nat.min_eq_left hlength, Nat.add_sub_cancel_left]
  rwa [← htake]

/-- A reader of `n` octets moves the cursor by as many. -/
theorem Recognises.offset_eq {α : Type} {r : Reader α} {F : List UInt8 → α → Prop} {n : Nat} {a : α}
    (h : Recognises r fun content a => content.length = n ∧ F content a)
    (hr : r c = .ok a c') : c'.offset = c.offset + n := by
  obtain ⟨o, rest, ⟨rfl, -⟩, -, rfl⟩ := (h c.offset c.rest a c').1 hr
  rfl

/-! ## Operations -/

namespace Reader

/-- The kinds of contents; the one of `octets` is the octets themselves. -/
inductive ContentKind where
  | octets
  | integer
  | unsigned32
  | unsigned64
  | oid
  | ipAddress

namespace ContentKind

/-- What is made of a content. -/
abbrev Result : ContentKind → Type
  | octets => List UInt8
  | integer => Int32
  | unsigned32 => UInt32
  | unsigned64 => UInt64
  | oid => Oid
  | ipAddress => Ipv4

/-- The reader of a content of `n` octets. -/
def reader (n : Nat) : (kind : ContentKind) → Reader kind.Result
  | octets => Reader.octets n
  | integer => integerContent n
  | unsigned32 => unsigned32Content n
  | unsigned64 => unsigned64Content n
  | oid => oidContent n
  | ipAddress => ipAddressContent n

/-- The contents of which it is made. -/
def Form : (kind : ContentKind) → List UInt8 → kind.Result → Prop
  | octets => fun content octets => content = octets
  | integer => Integer.Form
  | unsigned32 => fun content v => Integer.UnsignedForm 5 content (UInt32.toNat v)
  | unsigned64 => fun content v => Integer.UnsignedForm 9 content (UInt64.toNat v)
  | oid => Oid.Form
  | ipAddress => fun content address => content = Ipv4.octets address

theorem recognises_reader (kind : ContentKind) (n : Nat) :
    Recognises (kind.reader n) fun content a => content.length = n ∧ kind.Form content a := by
  cases kind with
  | octets => exact recognises_octets n
  | integer => exact recognises_integerContent n
  | unsigned32 => exact recognises_unsigned32Content n
  | unsigned64 => exact recognises_unsigned64Content n
  | oid => exact Value.recognises_oidContent n
  | ipAddress => exact Value.recognises_ipAddressContent n

theorem within_reader {lo hi : Nat} (kind : ContentKind) (n : Nat) :
    Within lo hi (kind.reader n) := by
  cases kind with
  | octets => exact within_octets n
  | integer => exact within_integerContent n
  | unsigned32 => exact within_unsigned32Content n
  | unsigned64 => exact within_unsigned64Content n
  | oid => exact within_oidContent n
  | ipAddress => exact within_ipAddressContent n

end ContentKind

/-- What can be done in a container. A container is opened by `split`, of the
    next `n` octets, and by `constructed`, of the content of an element; all
    others look at what is next, check it or take it. -/
inductive Operation where
  | peek
  | isEmpty
  | expectRemaining (n : Nat)
  | octet
  | length
  | expectTag (t : Tag)
  | null
  | content (kind : ContentKind) (n : Nat)
  | element (kind : ContentKind) (t : Tag)
  | split (n : Nat)
  | constructed (t : Tag)
  | value
  | varbind
  | varbinds (max : Nat)
  | pdu (max : Nat)

namespace Operation

/-- What an operation gives. -/
abbrev Result : Operation → Type
  | peek => Option UInt8
  | isEmpty => Bool
  | expectRemaining _ | null => Unit
  | octet => UInt8
  | length | expectTag _ => Nat
  | content kind _ | element kind _ => kind.Result
  | split _ | constructed _ => Cursor
  | value => Value
  | varbind => VarBind
  | varbinds _ => List VarBind
  | pdu _ => Pdu

/-- The reader that does it. -/
def reader : (op : Operation) → Reader op.Result
  | peek => Reader.peek
  | isEmpty => Reader.isEmpty
  | expectRemaining n => Reader.expectRemaining n
  | octet => Reader.octet
  | length => Reader.length
  | expectTag t => Reader.expectTag t
  | null => Reader.null
  | content kind n => kind.reader n
  | element kind t => do kind.reader (← Reader.expectTag t)
  | split n => Reader.split n
  | constructed t => Reader.constructed t
  | value => Value.read
  | varbind => VarBind.read
  | varbinds max => VarBind.readList max
  | pdu max => Pdu.read max

-- The readers of elements are operations.
example : (element .integer Tag.integer).reader = Reader.integer ∧
    (element .octets Tag.octetString).reader = Reader.octetString ∧
    (element .oid Tag.objectIdentifier).reader = Reader.oid ∧
    (element .ipAddress Tag.ipAddress).reader = Reader.ipAddress ∧
    (∀ t, (element .unsigned32 t).reader = Reader.unsigned32 t) ∧
    ∀ t, (element .unsigned64 t).reader = Reader.unsigned64 t :=
  ⟨rfl, rfl, rfl, rfl, fun _ => rfl, fun _ => rfl⟩

/-- What the result of an operation tells, in a container that ends at the
    offset `stop` of the message `d`, about the octets from the offset `lo` to
    the offset `hi`, between which it was read. -/
def Tells (d : List UInt8) (stop lo hi : Nat) : (op : Operation) → op.Result → Prop
  | peek, next? => hi = lo ∧ next? = (d.extract lo stop).head?
  | isEmpty, b => hi = lo ∧ (b = true ↔ lo = stop)
  | expectRemaining n, _ => hi = lo ∧ stop = lo + n
  | octet, b => d.extract lo hi = [b]
  | length, n => Length.Form (d.extract lo hi) n
  | expectTag t, n => ∃ l, Length.Form l n ∧ d.extract lo hi = t :: l
  | null, _ => Element.Form Tag.null (fun content (_ : Unit) => content = []) (d.extract lo hi) ()
  | content kind n, a => hi = lo + n ∧ kind.Form (d.extract lo hi) a
  | element kind t, a => Element.Form t kind.Form (d.extract lo hi) a
  | split n, c => c.offset = lo ∧ hi = lo + n ∧ c.rest = d.extract lo hi
  | constructed t, c => (∃ l, Length.Form l (hi - c.offset) ∧ d.extract lo c.offset = t :: l) ∧
      lo ≤ c.offset ∧ c.offset ≤ hi ∧ c.rest = d.extract c.offset hi
  | value, v => Value.Form (d.extract lo hi) v
  | varbind, v => VarBind.Form (d.extract lo hi) v
  | varbinds max, vs => Element.Form Tag.sequence (VarBind.ListForm max) (d.extract lo hi) vs
  | pdu max, p => hi = stop ∧ Pdu.Form max (d.extract lo hi) p

/-- The container that an operation opens, if it opens one. -/
def opened? : (op : Operation) → op.Result → Option Cursor
  | split _, c | constructed _, c => some c
  | _, _ => none

theorem within_reader {lo hi : Nat} (op : Operation) : Within lo hi op.reader := by
  cases op with
  | peek => exact within_peek
  | isEmpty => exact within_isEmpty
  | expectRemaining n => exact within_expectRemaining n
  | octet => exact within_octet
  | length => exact within_length
  | expectTag t => exact within_expectTag t
  | null => exact within_null
  | content kind n => exact kind.within_reader n
  | element kind t => exact (within_expectTag t).bind kind.within_reader
  | split n => exact within_split n
  | constructed t => exact within_constructed t
  | value => exact Value.within_read
  | varbind => exact VarBind.within_read
  | varbinds max => exact VarBind.within_readList max
  | pdu max => exact Pdu.within_read max

theorem tells_split {n : Nat} {container : Cursor} (hc : c.StandsIn d)
    (h : Reader.split n c = .ok container c') :
    (split n).Tells d c.stop c.offset c'.offset container := by
  have hbind : (octets n >>= fun o => pure ⟨c.offset, o⟩) c = .ok container c' := h
  obtain ⟨o, t, ho, hcontainer⟩ := bind_eq_ok.1 hbind
  cases hcontainer
  exact ⟨rfl, (recognises_octets n).offset_eq ho, ((recognises_octets n).of_standsIn hc ho).2.symm⟩

theorem tells_constructed {t : Tag} {container : Cursor} (hc : c.StandsIn d)
    (h : Reader.constructed t c = .ok container c') :
    (constructed t).Tells d c.stop c.offset c'.offset container := by
  obtain ⟨n, u, hn, hsplit⟩ := bind_eq_ok.1 h
  have hu : c.LeadsTo u := (within_expectTag t).leadsTo_of_ok hn
  obtain ⟨hoffset, hend, hrest⟩ := tells_split (hu.standsIn hc) hsplit
  rw [← hoffset] at hend
  have hheader := (recognises_expectTag t).of_standsIn hc hn
  rw [← hoffset] at hheader
  refine ⟨?_, hu.offset_le.1.trans_eq hoffset.symm, hend.ge.trans' (Nat.le_add_right _ _), ?_⟩
  · rwa [hend, Nat.add_sub_cancel_left]
  · rwa [hoffset]

/-- What an operation gives tells about the octets that it took. -/
theorem tells_of_reader {op : Operation} {a : op.Result} (hc : c.StandsIn d)
    (h : op.reader c = .ok a c') : op.Tells d c.stop c.offset c'.offset a := by
  cases op with
  | peek =>
    cases h
    exact ⟨rfl, by rw [← hc.rest_eq]⟩
  | isEmpty =>
    cases h
    refine ⟨rfl, ?_⟩
    rw [List.isEmpty_iff, ← List.length_eq_zero_iff, Cursor.stop, Cursor.remaining]
    omega
  | expectRemaining n =>
    rw [reader, Reader.expectRemaining] at h
    split_ifs at h with hn
    cases h
    exact ⟨rfl, by rw [Cursor.stop, hn]⟩
  | octet => exact recognises_octet.of_standsIn hc h
  | length => exact recognises_length.of_standsIn hc h
  | expectTag t => exact (recognises_expectTag t).of_standsIn hc h
  | null => exact recognises_null.of_standsIn hc h
  | content kind n =>
    have hread := kind.recognises_reader n
    exact ⟨hread.offset_eq h, (hread.of_standsIn hc h).2⟩
  | element kind t => exact (recognises_element kind.recognises_reader).of_standsIn hc h
  | split n => exact tells_split hc h
  | constructed t => exact tells_constructed hc h
  | value => exact Value.recognises_read.of_standsIn hc h
  | varbind => exact VarBind.recognises_read.of_standsIn hc h
  | varbinds max => exact (VarBind.recognises_readList max).of_standsIn hc h
  | pdu max =>
    -- A PDU takes all that is left in the container.
    have hstop := (Pdu.within_read max).leadsTo_of_ok h |>.offset_le.2
    rw [Cursor.stop, Pdu.remaining_of_read h, Nat.add_zero] at hstop
    refine ⟨hstop, ?_⟩
    rw [hstop, ← hc.rest_eq]
    exact (Pdu.recognisesAll_read max c.offset c.rest a).1 ⟨c', h⟩

/-- The octets of a container that an operation opens are a part of the message,
    too. -/
theorem standsIn_of_opened? {op : Operation} {a : op.Result} {container : Cursor}
    (hc : c.StandsIn d) (h : op.reader c = .ok a c') (hopened : op.opened? a = some container) :
    container.StandsIn d := by
  have hend : c'.offset ≤ d.length := by
    have hstop := (op.within_reader.leadsTo_of_ok h).offset_le.2
    exact (Nat.le_add_right _ _).trans (hstop.trans_le hc.stop_le)
  have htells := tells_of_reader hc h
  have hpart : container.offset ≤ c'.offset ∧
      container.rest = d.extract container.offset c'.offset := by
    cases op with
    | split n =>
      cases hopened
      obtain ⟨hoffset, hn, hrest⟩ := htells
      rw [hoffset]
      exact ⟨hn.ge.trans' (Nat.le_add_right _ _), hrest⟩
    | constructed t =>
      cases hopened
      exact htells.2.2
    | _ => cases hopened
  have hstands := Cursor.standsIn_extract hpart.1 hend
  rwa [← hpart.2] at hstands

end Operation

end Reader

end SnmpAgent
