import Relata.Sql.Command
import Relata.Store.Refusal

/-! # Limits of commands

The conditions of a command may not be nested too deeply, and it may not have too many
marks. Conditions that are joined are nested in one another from the left.
-/

namespace Relata

namespace Condition

def joinedHeight : List Nat → Nat
  | [] => 0
  | h :: hs => hs.foldl (fun joined h => max joined h + 1) h

mutual

/-- How deep a condition is nested, with its operands. -/
def height : Condition → Nat
  | among _ [_] => 3
  | outside _ [_] => 4
  | outside _ _ => 3
  | group _ parts => joinedHeight (partHeights parts)
  | _ => 2

def heights : List Condition → List Nat
  | [] => []
  | c :: cs => height c :: heights cs

def partHeights : List (List Condition) → List Nat
  | [] => []
  | part :: parts => joinedHeight (heights part) :: partHeights parts

end

end Condition

namespace Command

def deepest : Nat := 1000

def mostMarks : Nat := 32766

def conditions : Command → List Condition
  | query _ _ cs _ _ => cs
  | update _ _ cs => cs
  | delete _ cs => cs
  | _ => []

def checkLimits (k : Command) : Except Refusal Unit :=
  if deepest < Condition.joinedHeight (Condition.heights k.conditions) then .error .tooDeep
  else if mostMarks < k.params.length then .error .tooManyMarks
  else .ok ()

end Command

end Relata
