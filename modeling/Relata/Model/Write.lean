import Relata.Model.Read
import Relata.Script.Transaction
import Relata.Value.Description

/-! # Writing

A row that is written is read again, so that the caller gets it as the store keeps
it. What locates a row, changes it and reads it again is not interrupted by other
tasks, and goes by the identity of the row once it is located.
-/

namespace Relata

namespace Record

/-- A record with an identity of its own, or with the given one, and that identity. -/
def identified (fresh : String) (r : Record) : Value × Record :=
  let id := Value.text fresh
  match Entries.get? r key with
  | some v => if v.isNull then (id, Entries.set r key id) else (v, r)
  | none => (id, (key, id) :: r)

/-- The filter that a row was found by, narrowed to the row itself if it has an identity. -/
def locator (r : Record) (f : Filter) : Filter :=
  match Entries.get? r key with
  | some v => if v.isNull then f else Filter.eq [] key v
  | none => f

end Record

namespace Model

def lostRow (m : Model) (id : Value) : Failure :=
  .internal (m.table ++ " row " ++ id.described ++ " missing after insert")

def create (m : Model) (fresh : String) (data : Record) : Op Record := do
  let (id, row) := data.identified fresh
  m.checkData row
  let command ← Command.insertion m.table row
  let _ ← m.perform command
  match ← m.findUnique (.byKey id) with
  | some row => return row
  | none => throw (m.lostRow id)

/-- The insertions of rows, each with the identity for the case that it has none. -/
def insertions (m : Model) : List (String × Record) → Except Fault (List Command)
  | [] => .ok []
  | (fresh, data) :: rest => do
    let row := (data.identified fresh).2
    m.checkData row
    let command ← Command.insertion m.table row
    let commands ← m.insertions rest
    return command :: commands

def createMany (m : Model) (rows : List (String × Record)) : Op Nat := do
  if rows.isEmpty then return 0
  else
    let commands ← m.insertions rows
    let counts ← m.handle.batch (commands.map .command)
    return counts.foldl (· + ·) 0

/-- Changes a row that meets a filter; none if there is no such row. -/
def update (m : Model) (f : Filter) (data : Record) : Op (Option Record) := do
  if data.hasAssignments then
    m.checkFilter f
    m.checkData data
    m.handle.hold fun inner => do
      let m := m.through inner
      match ← m.findUnique { filter := f } with
      | none => return none
      | some found =>
        let target := found.locator f
        let cs ← Filter.conditions target
        let command ← Command.assignment m.table data cs
        let _ ← m.perform command
        m.findUnique { filter := target }
  else throw (.fault (.nothingToSet m.table))

def updateMany (m : Model) (f : Filter) (data : Record) : Op Nat := do
  if data.hasAssignments then
    m.checkFilter f
    m.checkData data
    let cs ← Filter.conditions f
    let command ← Command.assignment m.table data cs
    return (← m.perform command).count
  else return 0

def delete (m : Model) (f : Filter) : Op (Option Record) := do
  m.checkFilter f
  m.handle.hold fun inner => do
    let m := m.through inner
    match ← m.findUnique { filter := f } with
    | none => return none
    | some found =>
      let cs ← Filter.conditions (found.locator f)
      let command ← Command.removal m.table cs
      let _ ← m.perform command
      return some found

def deleteMany (m : Model) (f : Filter) : Op Nat := do
  m.checkFilter f
  let cs ← Filter.conditions f
  let command ← Command.removal m.table cs
  return (← m.perform command).count

/-- Changes a row that meets a filter, or adds one that holds what the filter requires. -/
def upsert (m : Model) (fresh : String) (f : Filter) (create update : Record) : Op Record :=
  m.handle.hold fun inner => do
    let m := m.through inner
    match ← m.findUnique { filter := f } with
    | some found =>
      if update.hasAssignments then
        return (← m.update (found.locator f) update).getD found
      else return found
    | none => m.create fresh (Entries.extend create f.equalities)

end Model

end Relata
