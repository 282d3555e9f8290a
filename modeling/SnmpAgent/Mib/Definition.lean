import SnmpAgent.Mib.Metric

/-!
# Definitions

A *definition* describes one scalar or one column of a table: the node that it
hangs under, its column number, the tag that its values must have, and the
cells. The instance of a scalar is row 0 of its column; the rows of a table
count from 1.

* `Definition.instances`: the names and cells of a definition, row by row.
-/

namespace SnmpAgent

/-- Where the value of a variable comes from: it never changes, or is a figure
    of the host. -/
inductive Cell where
  | fixed (value : Value)
  | metric (metric : Metric)
  deriving DecidableEq

namespace Cell

/-- The value of a cell, given the figures of the host. -/
def value (s : Snapshot) : Cell → Value
  | .fixed v => v
  | .metric m => m.sample s

/-- The metric behind a cell. -/
def metric? : Cell → Option Metric
  | .fixed _ => none
  | .metric m => some m

end Cell

/-- The rows of a definition: the single one of a scalar, or those of a table
    column. -/
inductive Rows where
  | scalar (cell : Cell)
  | table (cells : List Cell)
  deriving DecidableEq

/-- One scalar or table column. -/
structure Definition where
  /-- The node under which the column hangs. -/
  root : Oid
  column : UInt32
  /-- The tag that the values must have. -/
  tag : Tag
  rows : Rows
  deriving DecidableEq

namespace Definition

/-- A scalar. -/
def scalar (root : Oid) (column : UInt32) (type : ValueType) (cell : Cell) : Definition :=
  ⟨root, column, type.tag, .scalar cell⟩

/-- A table column. -/
def table (root : Oid) (column : UInt32) (type : ValueType) (cells : List Cell) : Definition :=
  ⟨root, column, type.tag, .table cells⟩

/-- Names for cells, from a row on. -/
def rowsFrom (root : Oid) (column : UInt32) (row : Nat) : List Cell → List (Oid × Cell)
  | [] => []
  | cell :: cells =>
    (root.join [column, UInt32.ofNat row], cell) :: rowsFrom root column (row + 1) cells

/-- The names and cells of a definition, row by row. -/
def instances (d : Definition) : List (Oid × Cell) :=
  match d.rows with
  | .scalar cell => [(d.root.join [d.column, 0], cell)]
  | .table cells => rowsFrom d.root d.column 1 cells

end Definition

end SnmpAgent
