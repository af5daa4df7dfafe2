import Relata.Query.Filter
import Relata.Store.Truth
import Relata.Value.Scalar

/-! # The order of scalars

Nothing comes before numbers, numbers before texts, and texts before bytes. Numbers
compare by their exact values, texts by their characters, bytes by their values.
-/

namespace Relata

namespace Scalar

def rank : Scalar → Nat
  | null => 0
  | integer _ => 1
  | real _ => 1
  | text _ => 2
  | blob _ => 3

def compareLists {α : Type} (cmp : α → α → Ordering) : List α → List α → Ordering
  | [], [] => .eq
  | [], _ :: _ => .lt
  | _ :: _, [] => .gt
  | a :: as, b :: bs =>
    match cmp a b with
    | .eq => compareLists cmp as bs
    | o => o

def order : Scalar → Scalar → Ordering
  | integer m, integer n => compare m.toInt n.toInt
  | integer m, real y => (y.compareInt m.toInt).swap
  | real x, integer n => x.compareInt n.toInt
  | real x, real y => x.compare y
  | text s, text t => compare s t
  | blob a, blob b => compareLists (fun a b => compare a.toNat b.toNat) a b
  | s, t => compare s.rank t.rank

def isNull : Scalar → Bool
  | null => true
  | _ => false

end Scalar

namespace Comparison

def accepts : Comparison → Ordering → Bool
  | equal, o => o == .eq
  | different, o => o != .eq
  | less, o => o == .lt
  | atMost, o => o != .gt
  | greater, o => o == .gt
  | atLeast, o => o != .lt

/-- The truth of a comparison; unknown if a side is null. -/
def truth (how : Comparison) (a b : Scalar) : Truth :=
  if a.isNull || b.isNull then none else some (how.accepts (a.order b))

end Comparison

end Relata
