import SnmpAgent.Value

/-!
# Variable bindings

A *varbind* pairs a name with a value. Requests and replies carry a list of
them, each varbind a SEQUENCE and the list a SEQUENCE around them.

* `VarBind.write`, `VarBind.writeList`: the encoded elements;
* `VarBind.read`, `VarBind.readList`: the varbind, or the list of at most a
  given number of varbinds, of the next element, which it must fill exactly.
-/

namespace SnmpAgent

/-- A name with a value. -/
structure VarBind where
  oid : Oid
  value : Value
  deriving DecidableEq

namespace VarBind

/-- Puts a varbind in front of the buffer. -/
def write (v : VarBind) : Writer := Writer.sequence do
  v.value.write
  Writer.oid v.oid

/-- Puts a list of varbinds in front of the buffer. -/
def writeList (vs : List VarBind) : Writer := Writer.sequence (Writer.inOrder write vs)

/-- The varbind of the next element. -/
def read : Reader VarBind := do
  let content ← Reader.constructed Tag.sequence
  Reader.inside content do
    let oid ← Reader.oid
    let value ← Value.read
    Reader.expectRemaining 0
    return ⟨oid, value⟩

/-- The varbinds up to the end of their container, which may hold `room` more of
    `max`. -/
def readUpTo (max : Nat) : (room : Nat) → Reader (List VarBind)
  | 0 => do if ← Reader.isEmpty then return [] else Reader.fail (.tooManyVarbinds max)
  | room + 1 => do
    if ← Reader.isEmpty then return []
    else
      let v ← read
      let vs ← readUpTo max room
      return v :: vs

/-- The list of at most `max` varbinds of the next element. -/
def readList (max : Nat) : Reader (List VarBind) := do
  let content ← Reader.constructed Tag.sequence
  Reader.inside content (readUpTo max max)

instance : ToString VarBind := ⟨fun v => s!"{v.oid} = {v.value}"⟩

end VarBind

end SnmpAgent
