import SnmpAgent.Mib.Fault

/-!
# Ordered tables

A *table* lists entries under names in strictly ascending order, up to a fixed
capacity. Entries are only ever appended, in order; the table never sorts.
Searching is counting: the position of a name is the number of entries below
it.

* `OidTable.push`: appends an entry, if there is room and the name is above
  all others;
* `OidTable.lowerBound`, `OidTable.upperBound`: the positions where the entries
  at or above a name, and above it, begin.
-/

namespace SnmpAgent

/-- Entries under ascending names. -/
structure OidTable (α : Type) where
  entries : List (Oid × α)
  /-- The most entries that the table may hold. -/
  capacity : Nat

namespace OidTable

variable {α : Type}

/-- The table without entries. -/
def empty (capacity : Nat) : OidTable α := ⟨[], capacity⟩

/-- The number of entries. -/
def length (t : OidTable α) : Nat := t.entries.length

/-- Appends an entry whose name is above all others. -/
def push (t : OidTable α) (oid : Oid) (a : α) : Except MibFault (OidTable α) :=
  if t.length = t.capacity then .error (.tableOverflow t.capacity)
  else if (t.entries.getLast?.any fun last => oid ≤ last.1) then .error .outOfOrder
  else .ok { t with entries := t.entries ++ [(oid, a)] }

/-- How many entries stand before the first one at or above `oid`. -/
def lowerBound (t : OidTable α) (oid : Oid) : Nat :=
  (t.entries.takeWhile (·.1 < oid)).length

/-- How many entries stand before the first one above `oid`. -/
def upperBound (t : OidTable α) (oid : Oid) : Nat :=
  (t.entries.takeWhile (·.1 ≤ oid)).length

/-- The entry at a position. -/
def get? (t : OidTable α) (i : Nat) : Option (Oid × α) := t.entries[i]?

/-- The position of the entry under a name. -/
def position? (t : OidTable α) (oid : Oid) : Option Nat :=
  let i := t.lowerBound oid
  if (t.get? i).any (·.1 = oid) then some i else none

/-- Replaces what stands at a position, if there is an entry; the name stays. -/
def set (t : OidTable α) (i : Nat) (a : α) : OidTable α :=
  { t with entries := t.entries.modify i fun entry => (entry.1, a) }

end OidTable

end SnmpAgent
