import Relata.Script.Basic

/-! # Taking turns

Tasks that wait at one gate get through it in the order in which they came, and a
task that comes again waits behind the others. So each of them does what it has to
do up to the end of its hold of the gate, and then it is the next one's turn. A task
that is started too late to wait there finds the gate free, and is done before the next
such task is there.
-/

namespace Relata.Script

variable {α : Type}

/-- The part of a script up to the first release of a gate; its result is the rest. -/
def turn : Script α → Script (Script α)
  | done a => done (done a)
  | step r instead next =>
    match r.action with
    | .release => step r instead fun reply => done (next reply)
    | _ => step r instead fun reply => turn (next reply)

def inOrder : List (Script α) → Script (List α)
  | [] => done []
  | s :: rest => s.andThen fun a => (inOrder rest).andThen fun as => done (a :: as)

/-- So many turns of each script, and then the rests in order. -/
def together : Nat → List (Script α) → Script (List α)
  | 0, scripts => inOrder scripts
  | turns + 1, scripts => (inOrder (scripts.map turn)).andThen (together turns)

/-- The tasks that wait at a gate when it is released, and then those that come later. -/
def afterwards (turns : Nat) (waiting late : List (Script α)) : Script (List α) :=
  (together turns waiting).andThen fun as => (inOrder late).andThen fun bs => done (as ++ bs)

end Relata.Script
