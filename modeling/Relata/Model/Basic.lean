import Relata.Query.Find
import Relata.Schema.Basic
import Relata.Script.Handle

/-! # Models

A model reads and writes the rows of one table. What it is asked is checked against
the schema before the store is asked anything.
-/

namespace Relata

structure Model where
  table : String
  handle : Handle
  schema : Schema
  /-- How many levels of relations a reading may attach. -/
  depthLimit : Nat

namespace Model

def related (m : Model) (table : String) : Model :=
  { m with table }

def through (m : Model) (handle : Handle) : Model :=
  { m with handle }

def checkFilter (m : Model) (f : Filter) : Except Fault Unit :=
  m.schema.checkFields m.table (Filter.fields f)

def checkData (m : Model) (data : Record) : Except Fault Unit :=
  m.schema.checkFields m.table (Entries.names data)

/-- A reading may attach so many levels, and name so many fields, as the schema admits. -/
def checkFind (m : Model) (find : Find) : Except Fault Unit := do
  find.attach.checkDepth m.depthLimit
  m.checkFilter find.filter
  m.schema.checkFields m.table find.order.fields

def perform (m : Model) (command : Command) : Op Answer :=
  m.handle.perform (.command command)

def select (m : Model) (f : Filter) (order : Order) (page : Page) : Op (List Record) := do
  let cs ← Filter.conditions f
  let command ← Command.select m.table cs order page
  return (← m.perform command).rows

end Model

end Relata
