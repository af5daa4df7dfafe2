import Relata.Script.Handle

/-! # Transactions and batches

Both make several jobs one. The body of a transaction is a script of its own, which
is given a handle inside the transaction; a batch is a list of jobs that are known
beforehand. Whatever fails, nothing of either is kept.
-/

namespace Relata

def Failure.ofControl : Failure → Failure
  | .query message => .transaction message
  | f => f

/-- How a transaction ends. -/
inductive Ending (ε α : Type)
  | committed (a : α)
  /-- It did not begin, so its body did not run. -/
  | refused (f : Failure)
  /-- Its body failed, and it was rolled back. -/
  | failed (e : ε)
  /-- Its body had a result, but it could not be committed and was rolled back. -/
  | undone (a : α) (f : Failure)

/-- What the caller gets: the result of the body if it is final, else an error of the
body's own kind. -/
def Ending.result {ε α : Type} (wrap : Failure → ε) : Ending ε α → Except ε α
  | committed a => .ok a
  | refused f => .error (wrap f)
  | failed e => .error e
  | undone _ f => .error (wrap f)

namespace Handle

variable {α ε : Type}

def control (h : Handle) (c : Control) : Script Reply := do
  return (← h.ask (.control c)).mapError .ofControl

/-- The transaction is taken back; whether that fails does not matter. -/
def undo (h : Handle) : Request :=
  h.request (.perform (.control .rollback))

/-- A body between the beginning of a transaction and its end. -/
def bracket (h : Handle) (body : Handle → Script (Except ε α)) : Script (Ending ε α) := do
  match ← h.control .begin with
  | .error f => return .refused f
  | .ok _ => Script.guarded [h.undo] do
    let _ ← Script.ask (h.request .enter)
    let result ← (body h.inside).guarded [h.request .leave]
    Script.surely (h.request .leave)
    match result with
    | .error e =>
      let _ ← Script.ask h.undo
      return .failed e
    | .ok a =>
      match ← h.control .commit with
      | .ok _ => return .committed a
      | .error f =>
        let _ ← Script.ask h.undo
        return .undone a f

/-- A script behind the gate; inside a transaction the gate is passed already. -/
def passing (h : Handle) (refused : Failure → α) (s : Script α) : Script α :=
  match h.mode with
  | .autocommit => h.gated refused s
  | .transaction => s

/-- Runs a body in a transaction of its own. There are no transactions inside
transactions. -/
def transaction (h : Handle) (body : Handle → Script (Except ε α)) : Script (Ending ε α) :=
  h.passing .refused (h.bracket body)

/-- A transaction that is given up takes itself back. Inside another one the task does
not wait for that. -/
def giveUp (h : Handle) : Request :=
  match h.mode with
  | .autocommit => h.undo
  | .transaction => h.request (.leaveBehind (.control .rollback))

def abandoned (h : Handle) (body : Handle → Script α) : Op α :=
  .mk <| h.passing .error do
    match ← h.control .begin with
    | .error f => return .error f
    | .ok _ =>
      let _ ← Script.ask (h.request .enter)
      let a ← body h.inside
      Script.surely (h.request .leave)
      Script.surely h.giveUp
      return .ok a

/-- The counts of jobs that are done one after another, up to the first that fails. -/
def each (h : Handle) : List Job → Script (Except Failure (List Nat))
  | [] => return .ok []
  | job :: jobs => do
    match ← h.ask job with
    | .error f => return .error f
    | .ok a => return (← h.each jobs).map (a.count :: ·)

def wholeBatch (h : Handle) (jobs : List Job) : Script (Except Failure (List Nat)) := do
  match ← h.ask (.control .begin) with
  | .error f => return .error f
  | .ok _ => Script.guarded [h.undo] do
    match ← h.each jobs with
    | .error f =>
      let _ ← Script.ask h.undo
      return .error f
    | .ok counts =>
      match ← h.ask (.control .commit) with
      | .ok _ => return .ok counts
      | .error f =>
        let _ ← Script.ask h.undo
        return .error f

def batchName : String := "till_batch"

def partialBatch (h : Handle) (jobs : List Job) : Script (Except Failure (List Nat)) := do
  match ← h.control (.savepoint batchName) with
  | .error f => return .error f
  | .ok _ =>
    match ← h.each jobs with
    | .ok counts => return (← h.control (.release batchName)).map fun _ => counts
    | .error f =>
      match ← h.ask (.control (.rollbackTo batchName)) with
      | .error _ => return .error f
      | .ok _ =>
        let _ ← h.ask (.control (.release batchName))
        return .error f

/-- All of the jobs, or none; the count of each. -/
def batch (h : Handle) (jobs : List Job) : Op (List Nat) :=
  if jobs.isEmpty then return []
  else
    .mk <| match h.mode with
      | .autocommit => h.gated .error (h.wholeBatch jobs)
      | .transaction => h.partialBatch jobs

end Handle

end Relata
