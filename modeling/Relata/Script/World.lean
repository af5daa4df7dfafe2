import Relata.Script.Site

/-! # Tasks and stores together

Any number of tasks use any number of stores. A step serves one request of one task,
in any order of the tasks; a task that waits for a gate makes no step until the gate
is free. A task may also give up while it waits, and then does what its request says
instead.
-/

namespace Relata

structure Running (α : Type) where
  /-- What it still does; no result if it gave up. -/
  script : Script (Option α)
  /-- The stores of the transactions in whose bodies it is, the innermost first. -/
  bodies : List Nat := []

structure World (α : Type) where
  sites : Nat → Site
  /-- The tasks that hold the gates. -/
  holders : Nat → Option Nat
  tasks : Nat → Running α

namespace World

variable {α : Type}

def replace {β : Type} (f : Nat → β) (i : Nat) (b : β) : Nat → β :=
  fun j => if j = i then b else f j

def setTask (w : World α) (t : Nat) (task : Running α) : World α :=
  { w with tasks := replace w.tasks t task }

def setScript (w : World α) (t : Nat) (script : Script (Option α)) : World α :=
  w.setTask t { w.tasks t with script }

def setHolder (w : World α) (store : Nat) (holder : Option Nat) : World α :=
  { w with holders := replace w.holders store holder }

/-- The reply to a request of a task; none if the task has to wait. A task is refused
at the gate of the store in whose transaction's body it is. What is left behind may be
done at any time, and so at once. -/
def serve? (w : World α) (t : Nat) (r : Request) : Option (Reply × World α) :=
  match r.action with
  | .acquire =>
    if (w.tasks t).bodies.head? = some r.store then some (.error Session.busyFailure, w)
    else
      match w.holders r.store with
      | none => some (.ok {}, w.setHolder r.store (some t))
      | some _ => none
  | .release => some (.ok {}, w.setHolder r.store none)
  | .enter =>
    let task := w.tasks t
    some (.ok {}, w.setTask t { task with bodies := r.store :: task.bodies })
  | .leave =>
    let task := w.tasks t
    some (.ok {}, w.setTask t { task with bodies := task.bodies.tail })
  | .perform job =>
    let (reply, site) := (w.sites r.store).perform job
    some (reply, { w with sites := replace w.sites r.store site })
  | .leaveBehind job =>
    let (reply, site) := (w.sites r.store).perform job
    some (reply, { w with sites := replace w.sites r.store site })
  | .tally => some (.ok { count := (w.sites r.store).executed }, w)

/-- A task that gave up: the requests that are left to it, and no result. -/
def givenUp : List Request → Script (Option α)
  | [] => .done none
  | r :: rest => .step r (r :: rest) fun _ => givenUp rest

/-- Whether a task may give up at a request: only where it waits. -/
def waits : Action → Bool
  | .acquire => true
  | .perform _ => true
  | _ => false

inductive Step : World α → Nat → World α → Prop
  | serve {w v : World α} {t : Nat} {r : Request} {instead : List Request}
      {next : Reply → Script (Option α)} {reply : Reply}
      (doing : (w.tasks t).script = .step r instead next)
      (served : w.serve? t r = some (reply, v)) :
      Step w t (v.setScript t (next reply))
  /-- The task gives up before its request is served. -/
  | giveUp {w : World α} {t : Nat} {r : Request} {instead : List Request}
      {next : Reply → Script (Option α)} (doing : (w.tasks t).script = .step r instead next)
      (waiting : waits r.action = true) : Step w t (w.setScript t (givenUp instead))
  /-- The task gives up while its job is being done. -/
  | giveUpServed {w v : World α} {t : Nat} {store : Nat} {job : Job} {instead : List Request}
      {next : Reply → Script (Option α)} {reply : Reply}
      (doing : (w.tasks t).script = .step ⟨store, .perform job⟩ instead next)
      (served : w.serve? t ⟨store, .perform job⟩ = some (reply, v)) :
      Step w t (v.setScript t (givenUp instead))

inductive Steps : World α → List Nat → World α → Prop
  | refl (w : World α) : Steps w [] w
  | step {u v w : World α} {t : Nat} {ts : List Nat} (first : Step u t v) (rest : Steps v ts w) :
      Steps u (t :: ts) w

/-- Tasks that have not begun, at stores whose gates are free. -/
structure Initial (w : World α) : Prop where
  free : ∀ store, w.holders store = none
  outside : ∀ t, (w.tasks t).bodies = []
  closed : ∀ store, (w.sites store).connection.opened = none

/-- A task that waits for a gate it holds itself. -/
def Stuck (w : World α) (t : Nat) : Prop :=
  ∃ store instead next, (w.tasks t).script = .step ⟨store, .acquire⟩ instead next ∧
    w.holders store = some t ∧ (w.tasks t).bodies.head? ≠ some store

end World

end Relata
