import SnmpAgent.Text.Fields
import SnmpAgent.Text.Digits

/-!
# Network addresses

A *socket address* is an IPv4 or IPv6 address with a port; an IPv6 address may
name the zone in which it is valid. The text of an address is unique: an IPv6
address is written in lower-case groups, its longest run of two or more zero
groups (the first of equally long ones) as `::`, and the addresses that stand
for IPv4 ones end in dotted form.

* `SocketAddr.toString`: the text of a socket address;
* `SocketAddr.parse?`: the socket address that a text denotes, in any of the
  usual spellings.
-/

namespace SnmpAgent

/-- An IPv4 address. -/
structure Ipv4 where
  a : UInt8
  b : UInt8
  c : UInt8
  d : UInt8
  deriving DecidableEq

/-- An address with a port. An IPv6 address has eight groups, and is valid in
    the zone `scope` unless that is zero. -/
inductive SocketAddr where
  | v4 (address : Ipv4) (port : UInt16)
  | v6 (groups : Vector UInt16 8) (scope : UInt32) (port : UInt16)
  deriving DecidableEq

namespace Ipv4

/-- The octets, first to last. -/
def octets (x : Ipv4) : List UInt8 := [x.a, x.b, x.c, x.d]

/-- The dotted text. -/
protected def toString (x : Ipv4) : String :=
  s!"{x.a.toNat}.{x.b.toNat}.{x.c.toNat}.{x.d.toNat}"

/-- An octet in at most three decimal digits without a leading zero. -/
def octet? (text : List Char) : Option UInt8 := do
  let n ← Text.decimal? text
  guard (n < 256 ∧ text.length ≤ 3 ∧ (text.head? ≠ some '0' ∨ text.length = 1))
  return UInt8.ofNat n

/-- The address that a dotted text denotes. -/
def parse? (text : List Char) : Option Ipv4 :=
  match Text.split '.' text with
  | [a, b, c, d] => do return ⟨← octet? a, ← octet? b, ← octet? c, ← octet? d⟩
  | _ => none

/-- The two IPv6 groups that hold the same octets. -/
def groups (x : Ipv4) : List UInt16 :=
  [x.a.toUInt16 * 256 + x.b.toUInt16, x.c.toUInt16 * 256 + x.d.toUInt16]

end Ipv4

namespace Ipv6

/-- The number of zero groups at the beginning. -/
def leadingZeros (groups : List UInt16) : Nat := (groups.takeWhile (· = 0)).length

/-- The start and length of the first longest run of zero groups; `start` groups
    stand before these. -/
def longestZeros (start : Nat) : List UInt16 → Nat × Nat
  | [] => (start, 0)
  | g :: groups =>
    let here := leadingZeros (g :: groups)
    let later := longestZeros (start + 1) groups
    if later.2 ≤ here then (start, here) else later

/-- A group in lower-case hexadecimal digits without leading zeros. -/
def groupText (g : UInt16) : String := String.ofList (Nat.toDigits 16 g.toNat)

/-- Groups separated by colons. -/
def groupsText (groups : List UInt16) : String := ":".intercalate (groups.map groupText)

/-- The text of an address of eight groups. -/
def toText (groups : List UInt16) : String :=
  match groups with
  | [0, 0, 0, 0, 0, 0xffff, hi, lo] =>
    s!"::ffff:{(hi / 256).toNat}.{(hi % 256).toNat}.{(lo / 256).toNat}.{(lo % 256).toNat}"
  | _ =>
    let (start, count) := longestZeros 0 groups
    if 1 < count then
      s!"{groupsText (groups.take start)}::{groupsText (groups.drop (start + count))}"
    else groupsText groups

/-- A group of one to four hexadecimal digits. -/
def group? (text : List Char) : Option UInt16 := do
  guard (text.length ≤ 4)
  return UInt16.ofNat (← Text.hexadecimal? text)

/-- The groups of a part of an address without `::`; a dotted IPv4 address may
    stand for the last two. -/
def groups? : List (List Char) → Option (List UInt16)
  | [] => some []
  | [last] =>
    if last.contains '.' then (Ipv4.parse? last).map Ipv4.groups else (group? last).map ([·])
  | field :: fields => do return (← group? field) :: (← groups? fields)

/-- The parts of a text before and after its first `::`. -/
def splitGap : List Char → Option (List Char × List Char)
  | ':' :: ':' :: rest => some ([], rest)
  | c :: rest => (splitGap rest).map fun (before, after) => (c :: before, after)
  | [] => none

/-- The groups of a part of an address beside `::`, which may be empty. -/
def side? (text : List Char) : Option (List UInt16) :=
  if text.isEmpty then some [] else groups? (Text.split ':' text)

/-- The address that a text denotes; `::` stands for at least one zero group. -/
def parse? (text : List Char) : Option (Vector UInt16 8) := do
  let groups ← match splitGap text with
    | none => groups? (Text.split ':' text)
    | some (before, after) => do
      guard (¬before.contains '.')
      let left ← side? before
      let right ← side? after
      guard (left.length + right.length < 8)
      pure (left ++ List.replicate (8 - left.length - right.length) 0 ++ right)
  if h : groups.toArray.size = 8 then some ⟨groups.toArray, h⟩ else none

end Ipv6

namespace SocketAddr

/-- The text of a socket address. -/
protected def toString : SocketAddr → String
  | .v4 address port => s!"{address.toString}:{port.toNat}"
  | .v6 groups scope port =>
    let zone := if scope = 0 then "" else s!"%{scope.toNat}"
    s!"[{Ipv6.toText groups.toList}{zone}]:{port.toNat}"

instance : ToString SocketAddr := ⟨SocketAddr.toString⟩

/-- A port in decimal digits. -/
def port? (text : List Char) : Option UInt16 := do
  let n ← Text.decimal? text
  guard (n < 1 <<< 16)
  return UInt16.ofNat n

/-- A zone in decimal digits. -/
def scope? (text : List Char) : Option UInt32 := do
  let n ← Text.decimal? text
  guard (n < 1 <<< 32)
  return UInt32.ofNat n

/-- The socket address that a text denotes. -/
def parse? (text : String) : Option SocketAddr :=
  match text.toList with
  | '[' :: rest => do
    let (host, tail) ← Text.splitOnce ']' rest
    let port ← port? (← Text.stripLead? [':'] tail)
    match Text.splitOnce '%' host with
    | none => return .v6 (← Ipv6.parse? host) 0 port
    | some (host, zone) => return .v6 (← Ipv6.parse? host) (← scope? zone) port
  | host => do
    let (host, port) ← Text.splitOnce ':' host
    return .v4 (← Ipv4.parse? host) (← port? port)

/-- The wildcard IPv4 address on a port. -/
def anyV4 (port : UInt16) : SocketAddr := .v4 ⟨0, 0, 0, 0⟩ port

/-- The wildcard IPv6 address on a port. -/
def anyV6 (port : UInt16) : SocketAddr := .v6 (Vector.replicate 8 0) 0 port

end SocketAddr

end SnmpAgent
