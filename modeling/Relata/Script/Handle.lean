import Relata.Script.Basic

/-! # Handles

A task reaches a store through a handle. Jobs of an autocommit handle pass the gate
one by one; jobs of a handle inside a transaction pass freely, since the task that
opened the transaction holds the gate.
-/

namespace Relata

/-- Whether the jobs of a handle pass the gate themselves. -/
inductive Mode
  | autocommit
  | transaction
  deriving DecidableEq

structure Handle where
  store : Nat := 0
  mode : Mode := .autocommit
  deriving DecidableEq

namespace Handle

variable {α : Type}

def request (h : Handle) (a : Action) : Request :=
  ⟨h.store, a⟩

def inside (h : Handle) : Handle :=
  { h with mode := .transaction }

def isInside (h : Handle) : Bool :=
  h.mode = .transaction

/-- A job without regard to the gate. -/
def ask (h : Handle) (job : Job) : Script Reply :=
  .ask (h.request (.perform job))

def gated (h : Handle) (refused : Failure → α) (s : Script α) : Script α := do
  match ← Script.ask (h.request .acquire) with
  | .error f => return refused f
  | .ok _ =>
    let a ← s.guarded [h.request .release]
    Script.surely (h.request .release)
    return a

/-- A script that no other task comes between, given a handle for its jobs. -/
def hold (h : Handle) (s : Handle → Op α) : Op α :=
  match h.mode with
  | .autocommit => .mk (h.gated .error (s h.inside).run)
  | .transaction => s h

def perform (h : Handle) (job : Job) : Op Answer :=
  h.hold fun inner => .mk (inner.ask job)

def tally (h : Handle) : Script Nat := do
  match ← Script.ask (h.request .tally) with
  | .ok a => return a.count
  | .error _ => return 0

end Handle

end Relata
