import Relata.Store.Database

/-! # Connections

A connection carries out commands on a database, one after another. Between a begin
and its commit or rollback the database is provisional: what it was before is kept,
and so is what it was at each savepoint.

A store runs more statements than there are commands. Which ones, and what they do, is the
dialect of a connection; it may be any.
-/

namespace Relata

structure Transaction where
  /-- The database before the transaction. -/
  before : Database
  /-- Whether a savepoint opened it, so that its release ends it. -/
  implicit : Bool := false
  /-- Savepoints and the databases at them, the latest first. -/
  savepoints : List (String × Database) := []

/-- What a connection counts. It is not taken back with a transaction, and statements may
ask for it. -/
structure Counters where
  /-- The rows that the last writing command changed. -/
  changes : Nat := 0
  /-- The rows that all of them changed, with those that went with others. -/
  total : Nat := 0
  /-- The number of the row that was added last. -/
  lastRow : Int := 0

/-- What a statement answers, and what it leaves. -/
structure Effect where
  rows : Except Refusal (List Record)
  database : Database
  counters : Counters

/-- A statement on data that is no command. It may answer and write what it likes, also
where it is refused, but it leaves the open transaction. -/
structure Work where
  /-- Whether it counts the rows that it changes. -/
  writes : Bool
  run : Database → Counters → Effect

/-- The statements that a store knows besides commands. -/
abbrev Dialect := Statement → Option Work

structure Connection extends Counters where
  database : Database
  opened : Option Transaction := none
  dialect : Dialect := fun _ => none

namespace Connection

/-- The open transaction becomes final, unless a reference is still broken. -/
def commit (c : Connection) : Except Refusal Connection :=
  match c.opened with
  | none => .error .nothingToCommit
  | some _ =>
    if c.database.broken true then .error .brokenReference else .ok { c with opened := none }

def rollback (c : Connection) : Except Refusal Connection :=
  match c.opened with
  | none => .error .nothingToRollback
  | some t => .ok { c with database := t.before, opened := none }

/-- The savepoints from the latest of a name on. -/
def since (name : String) : List (String × Database) → List (String × Database)
  | [] => []
  | (n, db) :: rest => if Text.sameFolded n name then (n, db) :: rest else since name rest

def savepoints (c : Connection) : List (String × Database) :=
  (c.opened.map Transaction.savepoints).getD []

def control (c : Connection) : Control → Except Refusal Connection
  | .begin =>
    match c.opened with
    | some _ => .error .alreadyOpen
    | none => .ok { c with opened := some { before := c.database } }
  | .commit => c.commit
  | .rollback => c.rollback
  | .savepoint name =>
    let t := c.opened.getD { before := c.database, implicit := true }
    .ok { c with opened := some { t with savepoints := (name, c.database) :: t.savepoints } }
  | .release name =>
    match c.opened, since name c.savepoints with
    | some t, _ :: rest =>
      if rest.isEmpty && t.implicit then c.commit
      else .ok { c with opened := some { t with savepoints := rest } }
    | _, _ => .error (.noSavepoint name)
  | .rollbackTo name =>
    match c.opened, since name c.savepoints with
    | some t, (n, db) :: rest =>
      .ok { c with database := db, opened := some { t with savepoints := (n, db) :: rest } }
    | _, _ => .error (.noSavepoint name)

/-- The connection after a command that changed so many rows, or that added one. -/
def written (c : Connection) (db : Database) (n : Nat) (added : Option Int := none) :
    Connection :=
  { c with
    database := db
    changes := n
    total := c.total + max n (c.database.rowCount - db.rowCount)
    lastRow := added.getD c.lastRow }

/-- A writing command takes effect. Outside a transaction it is one by itself, so no
reference may be left broken. -/
def settle (c : Connection) (db : Database) (n : Nat) (added : Option Int := none) :
    Except Refusal (Answer × Connection) :=
  if c.opened.isNone && db.broken true then .error .brokenReference
  else .ok ({ count := n }, c.written db n added)

def run? (c : Connection) : Command → Except Refusal (Answer × Connection)
  | .query projection table cs order page => do
    let rows ← c.database.query projection table cs order page
    return ({ rows, count := c.changes }, c)
  | .values cells =>
    .ok ({ rows := [Entries.ofList (cells.map fun (name, s) => (name, s.toValue))]
           count := c.changes }, c)
  | .insert table cells => do
    let db ← c.database.insert table cells
    c.settle db 1 (c.database.newNumber? table cells)
  | .update table cells cs => do
    let (db, n) ← c.database.update table cells cs
    c.settle db n
  | .delete table cs => do
    let (db, n) ← c.database.delete table cs
    c.settle db n
  | .control k => do
    let d ← c.control k
    return ({ count := c.changes }, d)

def writes : Command → Bool
  | .insert .. => true
  | .update .. => true
  | .delete .. => true
  | _ => false

/-- A connection after a refusal: a command that was to write and got as far as to be
carried out has changed no row. -/
def refused (c : Connection) (command : Command) (r : Refusal) : Connection :=
  if writes command && r.isLate then { c with changes := 0 } else c

def run (c : Connection) (command : Command) : Except Refusal Answer × Connection :=
  match c.run? command with
  | .ok (a, d) => (.ok a, d)
  | .error r => (.error r, c.refused command r)

def carryOut (c : Connection) (w : Work) : Except Refusal Answer × Connection :=
  let o := w.run c.database c.toCounters
  if w.writes && c.opened.isNone && o.database.broken true then
    (.error .brokenReference, { c with changes := 0 })
  else
    (o.rows.map fun rows => { rows, count := o.counters.changes },
      { c with database := o.database, toCounters := o.counters })

theorem database_refused (c : Connection) (command : Command) (r : Refusal) :
    (c.refused command r).database = c.database := by
  unfold refused
  split <;> rfl

theorem opened_refused (c : Connection) (command : Command) (r : Refusal) :
    (c.refused command r).opened = c.opened := by
  unfold refused
  split <;> rfl

theorem database_run_error {c : Connection} {command : Command} {r : Refusal}
    (h : (c.run command).1 = .error r) : (c.run command).2.database = c.database := by
  unfold run at h ⊢
  split at h <;> simp_all [database_refused]

theorem opened_run_error {c : Connection} {command : Command} {r : Refusal}
    (h : (c.run command).1 = .error r) : (c.run command).2.opened = c.opened := by
  unfold run at h ⊢
  split at h <;> simp_all [opened_refused]

end Connection

end Relata
