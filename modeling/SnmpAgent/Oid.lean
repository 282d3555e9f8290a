import SnmpAgent.Text.Fields
import SnmpAgent.Text.Digits

/-!
# Object identifiers

An *object identifier* names a node of the management tree by the path of
sub-identifiers from the root. Identifiers are ordered lexicographically, a
strict prefix before everything it prefixes, so that the nodes beneath a name
follow it without a gap.

Any list of sub-identifiers is an `Oid`; the ones that may be configured or
sent are those that `Oid.validate` accepts: between 2 and `Oid.maxSubids`
sub-identifiers whose first pair packs into one octet.

* `Oid.parse`: the dotted text `.1.3.6`, read strictly;
* `Oid.toString`: the dotted text of any identifier, the inverse on valid ones;
* `Oid.startsWith`: whether an identifier lies at or beneath another.
-/

namespace SnmpAgent

/-- A path of sub-identifiers from the root of the management tree. -/
structure Oid where
  subids : List UInt32
  deriving DecidableEq

namespace Oid

/-- The most sub-identifiers that a valid identifier has. -/
def maxSubids : Nat := 20

/-- The largest value of the octet that packs the first two sub-identifiers. -/
def maxFirstOctet : Nat := 255

/-- Why a text or a list of sub-identifiers is no valid identifier. A text is
    empty if it names no sub-identifier, and the first sub-identifier overflows
    if it does not pack into one octet with the second. -/
inductive Fault where
  | missingLeadingDot
  | empty
  | invalidSubid
  | tooShort
  | tooManySubids (count max : Nat)
  | firstSubidOverflow (first second : UInt32)
  deriving DecidableEq

/-- The wording of a fault. -/
def Fault.message : Fault → String
  | .missingLeadingDot => "OID must begin with '.'"
  | .empty => "empty OID"
  | .invalidSubid => "invalid sub-identifier"
  | .tooShort => "OID must have at least 2 sub-identifiers"
  | .tooManySubids count max => s!"OID has {count} sub-identifiers, exceeds maximum {max}"
  | .firstSubidOverflow first second =>
    s!"{first.toNat}.{second.toNat} does not fit the first-octet encoding"

instance : Ord Oid where
  compare a b := compare a.subids b.subids

instance : LT Oid := ltOfOrd

instance : LE Oid := leOfOrd

/-- The number of sub-identifiers. -/
def length (o : Oid) : Nat := o.subids.length

/-- Whether `o` lies at or beneath `p`: the sub-identifiers of `p` lead those of
    `o`. -/
def startsWith (o p : Oid) : Bool := p.subids.isPrefixOf o.subids

/-- The identifier reached from `o` by a further path. -/
def join (o : Oid) (path : List UInt32) : Oid := ⟨o.subids ++ path⟩

/-- The dotted text, each sub-identifier after a dot. -/
protected def toString (o : Oid) : String :=
  o.subids.foldl (fun text subid => text ++ "." ++ Nat.repr subid.toNat) ""

instance : ToString Oid := ⟨Oid.toString⟩

instance : Repr Oid where
  reprPrec o _ := s!"Oid({o.toString})"

/-- Checks the number of sub-identifiers and the packing of the first two. -/
def validate (o : Oid) : Except Fault Unit :=
  match o.subids with
  | first :: second :: _ =>
    if maxSubids < o.length then .error (.tooManySubids o.length maxSubids)
    else if first.toNat * 40 + second.toNat ≤ maxFirstOctet then .ok ()
    else .error (.firstSubidOverflow first second)
  | _ => .error .tooShort

/-- One sub-identifier: decimal digits of a number below `2 ^ 32`. -/
def parseSubid (text : List Char) : Except Fault UInt32 :=
  match Text.decimal? text with
  | some n => if n < 1 <<< 32 then .ok (UInt32.ofNat n) else .error .invalidSubid
  | none => .error .invalidSubid

/-- The sub-identifiers of a dotted text of `total` fields, of which `room` more
    may be read. A field beyond them is refused unseen. -/
def parseSubids (total : Nat) : (room : Nat) → List (List Char) → Except Fault (List UInt32)
  | _, [] => .ok []
  | 0, _ :: _ => .error (.tooManySubids total maxSubids)
  | room + 1, field :: fields => do
    let subid ← parseSubid field
    let subids ← parseSubids total room fields
    return subid :: subids

/-- Reads the dotted text of a valid identifier. -/
def parse (text : String) : Except Fault Oid :=
  match text.toList with
  | [] => .error .empty
  | c :: rest =>
    if c ≠ '.' then .error .missingLeadingDot
    else if rest.isEmpty then .error .empty
    else do
      let fields := Text.split '.' rest
      let o : Oid := ⟨← parseSubids fields.length maxSubids fields⟩
      o.validate
      return o

end Oid

end SnmpAgent
