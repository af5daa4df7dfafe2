import Relata.Sql.Command
import Relata.Store.Database
import Relata.Store.Failure

/-! # Scripts

A script is what a task does with stores: one request after another, where the reply
to a request decides what comes next. Each request carries what has to be done
instead of the rest if the task gives up while it waits for the reply.
-/

namespace Relata

/-- What the connection of a store is asked to do. -/
inductive Job
  | command (c : Command)
  /-- A statement in the words of the caller. -/
  | raw (s : Statement)
  /-- A table is added, unless it is there. -/
  | define (d : Definition)
  /-- A column is indexed, unless there is an index of the name. -/
  | index (name table column : String)
  /-- A transaction, or a part of one, begins or ends. -/
  | control (c : Control)
  /-- Nothing but to answer. -/
  | probe
  /-- To answer no more. -/
  | shut

/-- What a task asks of a store. -/
inductive Action
  /-- To pass the gate once no other task holds it, and to hold it from then on. -/
  | acquire
  | release
  /-- The task is in the body of a transaction from now on. -/
  | enter
  | leave
  | perform (job : Job)
  /-- To have a job done behind the next one, without waiting for it. -/
  | leaveBehind (job : Job)
  /-- How many jobs on data the store has executed. -/
  | tally

structure Request where
  store : Nat
  action : Action

abbrev Reply := Except Failure Answer

/-- What a task does until it has a result. -/
inductive Script (α : Type)
  | done (a : α)
  /-- A request, what to do instead of the rest if it is given up, and the rest. -/
  | step (request : Request) (instead : List Request) (next : Reply → Script α)

namespace Script

variable {α β : Type}

def andThen : Script α → (α → Script β) → Script β
  | done a, f => f a
  | step r instead next, f => step r instead fun reply => andThen (next reply) f

instance [Inhabited α] : Inhabited (Script α) := ⟨done default⟩

instance : Monad Script where
  pure := done
  bind := andThen

theorem bind_pure (s : Script α) : s.andThen done = s := by
  induction s with
  | done a => rfl
  | step r instead next ih => simp [andThen, ih]

theorem bind_assoc {γ : Type} (s : Script α) (f : α → Script β) (g : β → Script γ) :
    (s.andThen f).andThen g = s.andThen fun a => (f a).andThen g := by
  induction s with
  | done a => rfl
  | step r instead next ih => simp [andThen, ih]

def ask (r : Request) : Script Reply :=
  step r [] done

/-- A request that is made even if it is given up, and whose reply does not matter. -/
def surely (r : Request) : Script Unit :=
  step r [r] fun _ => done ()

/-- A script after which requests remain to be made if it is given up. -/
def guarded (undo : List Request) : Script α → Script α
  | done a => done a
  | step r instead next => step r (instead ++ undo) fun reply => guarded undo (next reply)

/-- Carries out a script by serving each request from a state. -/
def eval {σ : Type} (serve : Request → σ → Reply × σ) : Script α → σ → α × σ
  | done a, s => (a, s)
  | step r _ next, s =>
    let (reply, s) := serve r s
    eval serve (next reply) s

theorem eval_bind {σ : Type} (serve : Request → σ → Reply × σ) (s : Script α)
    (f : α → Script β) (x : σ) :
    eval serve (s.andThen f) x = eval serve (f (eval serve s x).1) (eval serve s x).2 := by
  induction s generalizing x with
  | done a => rfl
  | step r instead next ih => simp [andThen, eval, ih]

theorem eval_guarded {σ : Type} (serve : Request → σ → Reply × σ) (undo : List Request)
    (s : Script α) (x : σ) : eval serve (s.guarded undo) x = eval serve s x := by
  induction s generalizing x with
  | done a => rfl
  | step r instead next ih => simp [guarded, eval, ih]

end Script

/-- A script that has a result or fails. -/
abbrev Op (α : Type) := ExceptT Failure Script α

/-- A query that is refused fails before any request is made. -/
instance : MonadLift (Except Fault) (ExceptT Failure Script) where
  monadLift e := .mk (.done (e.mapError .fault))

end Relata
