import Relata.Schema.Basic

/-! # Declaring schemas

Tables and relations are declared one after another and become a schema together,
so that the order of a table and of a relation that uses it does not matter.
-/

namespace Relata

structure Declaration where
  tables : List (String × List String) := []
  relations : List (String × String × Relation) := []

namespace Declaration

def table (d : Declaration) (name : String) (columns : List String) : Declaration :=
  { d with tables := d.tables ++ [(name, columns)] }

def relation (d : Declaration) (table field : String) (r : Relation) : Declaration :=
  { d with relations := d.relations ++ [(table, field, r)] }

/-- Rows of the target that hold the identity of a row under their key. -/
def oneToMany (d : Declaration) (table field target foreignKey : String) : Declaration :=
  d.relation table field ⟨.oneToMany, target, foreignKey, Record.key⟩

/-- The row of the target whose identity a row holds under its key. -/
def manyToOne (d : Declaration) (table field target foreignKey : String) : Declaration :=
  d.relation table field ⟨.manyToOne, target, foreignKey, Record.key⟩

def checkNames : List String → Except Fault Unit
  | [] => .ok ()
  | name :: names => do
    let _ ← checkedName name
    checkNames names

/-- The set of columns: the identity of a row always belongs to it. -/
def columnSet (columns : List String) : List String :=
  columns.foldl (fun set c => if set.contains c then set else set ++ [c]) [Record.key]

/-- The declared tables; a later declaration of a table replaces an earlier one. -/
def buildTables (s : Schema) : List (String × List String) → Except Fault Schema
  | [] => .ok s
  | (name, columns) :: rest => do
    checkNames (name :: columns)
    buildTables { s with tables := Entries.set s.tables name (columnSet columns) } rest

/-- A key that a relation uses has to be a column that its table may have. -/
def requireColumn (s : Schema) (relation table column : String) : Except Fault Unit :=
  if s.admits table column then .ok ()
  else .error (.inconsistent (.undeclaredColumn relation table column))

def buildRelations (s : Schema) : List (String × String × Relation) → Except Fault Schema
  | [] => .ok s
  | (table, field, r) :: rest => do
    checkNames [table, field, r.target, r.foreignKey, r.localKey]
    requireColumn s field table r.parentKey
    requireColumn s field r.target r.targetKey
    let fields := s.relations table
    if Entries.contains fields field then
      .error (.inconsistent (.declaredTwice table field))
    else
      buildRelations
        { s with relationsOf := Entries.set s.relationsOf table (Entries.set fields field r) } rest

/-- The schema of a declaration: all tables first, then all relations. -/
def build (d : Declaration) : Except Fault Schema := do
  let s ← buildTables .empty d.tables
  buildRelations s d.relations

end Declaration

end Relata
