import Relata.Model.Write
import Relata.Settings

/-! # Clients

A client is what a program holds of a store: models of its tables, statements in the
caller's own words, and transactions whose bodies are given a client of their own.
-/

namespace Relata

structure Client where
  handle : Handle := {}
  schema : Schema := .empty
  depthLimit : Nat

namespace Client

def connect (s : Settings) (schema : Schema) : Except Failure Client := do
  s.validate
  return { schema, depthLimit := s.includeDepth }

def model (c : Client) (table : String) : Except Fault Model := do
  let table ← checkedName table
  return { table, handle := c.handle, schema := c.schema, depthLimit := c.depthLimit }

def query (c : Client) (sql : String) (values : List Value) : Op (List Record) := do
  let s ← Statement.raw sql values
  return (← c.handle.perform (.raw s)).rows

def execute (c : Client) (sql : String) (values : List Value) : Op Nat := do
  let s ← Statement.raw sql values
  return (← c.handle.perform (.raw s)).count

def isTransaction (c : Client) : Bool :=
  c.handle.isInside

/-- Runs a body in a transaction of its own. -/
def transaction {α ε : Type} (c : Client) (body : Client → Script (Except ε α)) :
    Script (Ending ε α) :=
  c.handle.transaction fun inner => body { c with handle := inner }

/-- A body whose transaction is given up at its end. -/
def abandoned {α : Type} (c : Client) (body : Client → Script α) : Op α :=
  c.handle.abandoned fun inner => body { c with handle := inner }

/-- All of the statements, or none. -/
def batch (c : Client) (jobs : List Job) : Op (List Nat) :=
  c.handle.batch jobs

def isHealthy (c : Client) : Script Bool := do
  match ← (c.handle.perform .probe).run with
  | .ok _ => return true
  | .error _ => return false

def close (c : Client) : Op Unit := do
  let _ ← c.handle.perform .shut

end Client

end Relata
