import Relata.Model.Related

/-! # Reading

Rows are selected by the store, get their relations attached, and are narrowed last,
so that a relation may go by a key that is not shown.
-/

namespace Relata.Model

/-- Rows with their relations, narrowed. -/
def complete (m : Model) (find : Find) (rows : List Record) : Op (List Record) := do
  let rows ← m.attach find.attach rows
  return Select.narrowAll find.select rows

def findMany (m : Model) (find : Find) : Op (List Record) := do
  m.checkFind find
  let rows ← m.select find.filter find.order find.page
  m.complete find rows

def findFirst (m : Model) (find : Find) : Op (Option Record) := do
  let rows ← m.findMany { find with page := { find.page with take := some 1 } }
  return rows.head?

/-- A row that meets the filter. The order and the page are not used. -/
def findUnique (m : Model) (find : Find) : Op (Option Record) := do
  m.checkFind find
  let rows ← m.select find.filter [] { take := some 1 }
  let rows ← m.complete find rows
  return rows.head?

def count (m : Model) (f : Filter) : Op Nat := do
  m.checkFilter f
  let cs ← Filter.conditions f
  let command ← Command.counting m.table cs
  let rows := (← m.perform command).rows
  let n := (rows.head?.bind fun row => Entries.get? row countLabel).bind Value.asInteger?
  return (n.map fun n => n.toInt.toNat).getD 0

def aggregate (m : Model) (a : Aggregate) : Op Record := do
  m.checkFilter a.filter
  m.schema.checkFields m.table a.fields
  let command ← Command.aggregation m.table a
  let rows := (← m.perform command).rows
  return a.reshape (rows.head?.getD [])

end Relata.Model
