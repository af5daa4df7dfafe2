import Relata.Query.Aggregate
import Relata.Query.Condition
import Relata.Query.Page
import Relata.Sql.Statement

/-! # Commands

What a store is told to do. Commands are made from checked descriptors, and each has
one statement that says it.
-/

namespace Relata

/-- What a selection shows of its rows. -/
inductive Projection
  | everything
  | columns (names : List String)
  | measures (ms : List Measure)

/-- The ends of a transaction and of a part of one. -/
inductive Control
  | begin
  | commit
  | rollback
  | savepoint (name : String)
  | release (name : String)
  | rollbackTo (name : String)
  deriving DecidableEq

inductive Command
  | query (projection : Projection) (table : String) (conditions : List Condition) (order : Order)
      (page : Page)
  /-- A row of operands under labels, from no table. -/
  | values (cells : List (String × Scalar))
  | insert (table : String) (cells : List (String × Scalar))
  | update (table : String) (cells : List (String × Scalar)) (conditions : List Condition)
  | delete (table : String) (conditions : List Condition)
  | control (c : Control)

def countLabel : String := "count"

def Measure.text (m : Measure) : String :=
  m.fold.keyword ++ "(" ++ m.column.getD "*" ++ ") AS " ++ m.label

def Projection.text : Projection → String
  | everything => "*"
  | columns names => Text.separated ", " names
  | measures ms => Text.separated ", " (ms.map Measure.text)

def Control.text : Control → String
  | begin => "BEGIN"
  | commit => "COMMIT"
  | rollback => "ROLLBACK"
  | savepoint name => "SAVEPOINT " ++ name
  | release name => "RELEASE " ++ name
  | rollbackTo name => "ROLLBACK TO " ++ name

namespace Command

open Text (separated)

def following (clause : String) : String :=
  if clause.isEmpty then "" else " " ++ clause

def whereClause (cs : List Condition) : String :=
  if cs.isEmpty then "" else " WHERE " ++ Condition.conjunctionText cs

def text : Command → String
  | query projection table cs order page =>
    "SELECT " ++ projection.text ++ " FROM " ++ table ++ whereClause cs ++
      following order.clause ++ following page.clause
  | values cells => "SELECT " ++ separated ", " (cells.map fun c => "? AS " ++ c.1)
  | insert table cells =>
    "INSERT INTO " ++ table ++ " (" ++ separated ", " (cells.map Prod.fst) ++ ") VALUES (" ++
      Condition.marks cells.length ++ ")"
  | update table cells cs =>
    "UPDATE " ++ table ++ " SET " ++ separated ", " (cells.map fun c => c.1 ++ " = ?") ++
      whereClause cs
  | delete table cs => "DELETE FROM " ++ table ++ whereClause cs
  | control c => c.text

/-- The scalars of the marks, from left to right. -/
def params : Command → List Scalar
  | query _ _ cs _ _ => Condition.operandsOfAll cs
  | values cells => cells.map Prod.snd
  | insert _ cells => cells.map Prod.snd
  | update _ cells cs => cells.map Prod.snd ++ Condition.operandsOfAll cs
  | delete _ cs => Condition.operandsOfAll cs
  | control _ => []

def statement (c : Command) : Statement :=
  ⟨c.text, c.params⟩

/-- The tables and columns that a command names, in the order of its text. -/
def names : Command → List String
  | query projection table cs order _ =>
    (match projection with
      | .everything => []
      | .columns names => names
      | .measures ms => ms.filterMap Measure.column) ++
      table :: (Condition.columnsOfAll cs ++ order.fields)
  | values cells => cells.map Prod.fst
  | insert table cells => table :: cells.map Prod.fst
  | update table cells cs => table :: (cells.map Prod.fst ++ Condition.columnsOfAll cs)
  | delete table cs => table :: Condition.columnsOfAll cs
  | control _ => []

def select (table : String) (cs : List Condition) (order : Order) (page : Page) :
    Except Fault Command := do
  let table ← checkedName table
  let order ← order.checked
  return query .everything table cs order page

/-- Fields and their scalars, each name checked before its value. -/
def cells : List (String × Value) → Except Fault (List (String × Scalar))
  | [] => .ok []
  | (field, v) :: rest => do
    let field ← checkedName field
    let s ← v.toScalar field
    let cs ← cells rest
    return (field, s) :: cs

def insertion (table : String) (data : Record) : Except Fault Command := do
  let table ← checkedName table
  if data.isEmpty then .error (.malformed (.nothingToInsert table))
  else return insert table (← cells data)

/-- Other values in the rows that meet conditions. The identity of a row is not set. -/
def assignment (table : String) (data : Record) (cs : List Condition) : Except Fault Command := do
  let table ← checkedName table
  if data.hasAssignments then
    return update table (← cells (data.filter fun e => e.1 ≠ Record.key)) cs
  else .error (.nothingToSet table)

def removal (table : String) (cs : List Condition) : Except Fault Command := do
  let table ← checkedName table
  return delete table cs

def counting (table : String) (cs : List Condition) : Except Fault Command := do
  let table ← checkedName table
  return query (.measures [⟨.count, none, countLabel⟩]) table cs [] {}

/-- The results of an aggregate. Its measures are checked before its filter. -/
def aggregation (table : String) (a : Aggregate) : Except Fault Command := do
  let table ← checkedName table
  let ms ← a.measures
  if ms.isEmpty then .error (.malformed (.nothingRequested table))
  else
    let cs ← Filter.conditions a.filter
    return query (.measures ms) table cs [] {}

end Command

end Relata
