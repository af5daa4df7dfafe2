import Relata.Store.Numeral
import Relata.Value.Scalar

/-! # Affinities of columns

A column prefers a class of values, and turns what it is given into that class where
nothing is lost. An operand that a column is compared with is turned likewise.
-/

namespace Relata

inductive Affinity
  | text
  | integer
  | real
  /-- Values stay as they are. -/
  | none
  deriving DecidableEq

namespace Affinity

def toText : Scalar → Scalar
  | .integer n => .text (Numeral.ofInteger n)
  | .real x => .text (Numeral.ofReal x)
  | s => s

def toNumber : Scalar → Scalar
  | .text s =>
    match Numeral.number? s with
    | some (.integer n) => .integer n
    | some (.real x) => .real x
    | Option.none => .text s
  | s => s

def toIntegral : Scalar → Scalar
  | .real x =>
    match Numeral.integral? x with
    | some n => .integer n
    | Option.none => .real x
  | s => s

def toReal : Scalar → Scalar
  | .integer n => .real (.ofInt n.toInt)
  | s => s

/-- What a column keeps of a scalar. -/
def store : Affinity → Scalar → Scalar
  | text, s => toText s
  | integer, s => toIntegral (toNumber s)
  | real, s => toReal (toNumber s)
  | none, s => s

/-- What a column is compared with instead of a scalar. -/
def operand : Affinity → Scalar → Scalar
  | text, s => toText s
  | integer, s => toNumber s
  | real, s => toNumber s
  | none, s => s

end Affinity

end Relata
