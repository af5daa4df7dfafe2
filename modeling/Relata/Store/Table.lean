import Relata.Store.Affinity
import Relata.Value.Basic

/-! # Tables

A table has columns with affinities and rules, and rows in the order of their numbers.
A column of integers may stand for the numbers of the rows.
-/

namespace Relata

structure Row where
  number : Int
  /-- In the order of the columns. -/
  cells : List Scalar

/-- What a row that leaves a column out holds there. -/
inductive Default
  | scalar (s : Scalar)
  /-- The moment at which the row is added. -/
  | now

structure Column where
  name : String
  affinity : Affinity := .none
  required : Bool := false
  default : Default := .scalar .null

/-- A column whose values have to occur in a column of another table. -/
structure Reference where
  column : String
  parent : String
  parentColumn : String
  /-- Whether rows go with the row that they refer to. -/
  cascade : Bool := false
  /-- Whether the rule is checked only when a transaction ends. -/
  deferred : Bool := false

/-- A column by whose values rows are found. -/
structure Index where
  column : String
  /-- Whether no value may be repeated. -/
  unique : Bool := true

structure Definition where
  name : String
  columns : List Column
  /-- The column of integers that stands for the numbers of the rows, if there is one. -/
  rowKey : Option String := none
  /-- The latest first, which is the order in which they are checked. -/
  indexes : List Index := []
  references : List Reference := []
  /-- Whether the declaration has a line for each column. -/
  spread : Bool := false

structure Table where
  definition : Definition
  rows : List Row := []

namespace Definition

open Text

/-- The place of a column; the case of letters does not matter. -/
def index? (d : Definition) (name : String) : Option Nat :=
  d.columns.findIdx? fun c => sameFolded c.name name

def has (d : Definition) (name : String) : Bool :=
  (d.index? name).isSome

def affinity (d : Definition) (name : String) : Affinity :=
  match d.index? name with
  | some i => (d.columns[i]?.map Column.affinity).getD .none
  | none => .none

def cell (d : Definition) (row : Row) (name : String) : Scalar :=
  match d.index? name with
  | some i => row.cells.getD i .null
  | none => .null

/-- A row under the names of its columns. -/
def record (d : Definition) (row : Row) : Record :=
  Entries.ofList ((d.columns.map Column.name).zip (row.cells.map Scalar.toValue))

/-- The names that the number of a row has in every table, unless a column has them. -/
def numberNames : List String :=
  ["rowid", "_rowid_", "oid"]

def isKey (d : Definition) (column : String) : Bool :=
  d.rowKey.any (sameFolded column)

def isNumber (d : Definition) (name : String) : Bool :=
  d.isKey name || (!d.has name && numberNames.any (sameFolded name))

/-- Whether a name stands for something that a row is given. -/
def holds (d : Definition) (name : String) : Bool :=
  d.has name || d.isNumber name

def numberName (d : Definition) : String :=
  d.rowKey.getD "rowid"

end Definition

end Relata
