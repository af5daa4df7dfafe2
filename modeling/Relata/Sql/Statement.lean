import Relata.Value.Scalar

/-! # Statements

A statement is a text with question marks and the scalars that they stand for.
-/

namespace Relata

structure Statement where
  sql : String
  params : List Scalar
  deriving DecidableEq

namespace Statement

/-- The scalars of values; a value that cannot be bound is named by its place. -/
def scalarsFrom (place : Nat) : List Value → Except Fault (List Scalar)
  | [] => .ok []
  | v :: vs => do
    let s ← v.toScalar ("$" ++ place.repr)
    let ss ← scalarsFrom (place + 1) vs
    return s :: ss

/-- A text written by the caller, with the values of its marks. -/
def raw (sql : String) (values : List Value) : Except Fault Statement :=
  (scalarsFrom 1 values).map fun params => ⟨sql, params⟩

end Statement

end Relata
