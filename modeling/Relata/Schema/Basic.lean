import Relata.Query.Order
import Relata.Value.Basic

/-! # Schemas

A schema says which columns tables have, as far as this is declared, and by which
keys the rows of tables belong together.
-/

namespace Relata

/-- Whether a parent has many related rows, or at most one. -/
inductive Cardinality
  | oneToMany
  | manyToOne
  deriving DecidableEq

/-- How rows of a table are related to rows of another. -/
structure Relation where
  cardinality : Cardinality
  target : String
  foreignKey : String
  localKey : String
  deriving DecidableEq

namespace Relation

def parentKey (r : Relation) : String :=
  match r.cardinality with
  | .oneToMany => r.localKey
  | .manyToOne => r.foreignKey

def targetKey (r : Relation) : String :=
  match r.cardinality with
  | .oneToMany => r.foreignKey
  | .manyToOne => r.localKey

end Relation

/-- The declared columns of tables, and the relations of tables in order. -/
structure Schema where
  tables : Entries (List String) := []
  relationsOf : Entries (Entries Relation) := []

namespace Schema

def empty : Schema := {}

def relations (s : Schema) (table : String) : Entries Relation :=
  (Entries.get? s.relationsOf table).getD []

def relation? (s : Schema) (table field : String) : Option Relation :=
  Entries.get? (s.relations table) field

def columns? (s : Schema) (table : String) : Option (List String) :=
  Entries.get? s.tables table

/-- Whether a table that declares its columns has this one; others may have any. -/
def admits (s : Schema) (table field : String) : Bool :=
  match s.columns? table with
  | some columns => columns.contains field
  | none => true

/-- A field has to be a plain name, and a column if columns are declared. -/
def checkField (s : Schema) (table field : String) : Except Fault Unit := do
  let field ← checkedName field
  if s.admits table field then .ok () else .error (.unknownField table field)

def checkFields (s : Schema) (table : String) : List String → Except Fault Unit
  | [] => .ok ()
  | field :: rest => do
    s.checkField table field
    s.checkFields table rest

def sortedColumns? (s : Schema) (table : String) : Option (List String) :=
  (s.columns? table).map fun columns => columns.mergeSort (fun a b => !(b < a))

end Schema

end Relata
