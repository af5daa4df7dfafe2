import Relata.Number.Word
import Relata.Text.Ascii
import Relata.Value.Scalar

/-! # Keys that rows are matched by

Related rows are grouped by the values of a field. A number that the store may
hold as text, or as a double, has the same key in each of these forms.
-/

namespace Relata

/-- What rows are grouped by. -/
inductive Key
  | integer (n : Int64)
  | real (x : Binary64)
  | text (s : String)
  | blob (bytes : List UInt8)
  deriving DecidableEq

namespace Key

open Text

/-- The integer that a double is equal to, below the bound from which on doubles
are too coarse to tell integers apart. -/
def ofReal (x : Binary64) : Key :=
  match x.toInt? with
  | some n => if n.natAbs < 9000000000000000 then integer (Int64.ofInt n) else real x
  | none => real x

/-- The integer whose only spelling is the text. -/
def ofText (s : String) : Key :=
  match integer? s.toList with
  | some n =>
    if Word.holdsSigned n ∧ Text.signed n = s.toList then integer (Int64.ofInt n) else text s
  | none => text s

def ofScalar? : Scalar → Option Key
  | .null => none
  | .integer n => some (integer n)
  | .real x => some (ofReal x)
  | .text s => some (ofText s)
  | .blob bytes => some (blob bytes)

end Key

/-- The key of a value; null and what cannot be bound have none. -/
def Value.key? (v : Value) : Option Key :=
  match v.toScalar Record.key with
  | .ok s => Key.ofScalar? s
  | .error _ => none

end Relata
