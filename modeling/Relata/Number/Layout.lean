import Relata.Number.Decimal
import Relata.Text.Ascii

/-! # How decimals are laid out

The digits of a number are written with a point among them, or with an exponent.
A layout says from which exponents on, and what marks a whole number.
-/

namespace Relata

/-- The decisions of a format about its numbers. -/
structure Layout where
  /-- Exponents of the leading digit that are written with a point. -/
  positional : Int → Bool
  /-- Whether a whole number ends in a point and a zero. -/
  wholeMark : Bool
  /-- Whether a single digit before an exponent is followed by a point and a zero. -/
  mantissaMark : Bool
  /-- The least count of digits of an exponent. -/
  exponentWidth : Nat
  /-- Whether an exponent that is not negative has a sign. -/
  exponentPlus : Bool := true

namespace Layout

open Text

/-- Digits with the point after the first `n` of them, padded with zeros. -/
def point (mark : Bool) (digits : List Char) (n : Int) : List Char :=
  if n ≤ 0 then '0' :: '.' :: (List.replicate (-n).toNat '0' ++ digits)
  else
    let whole := digits.take n.toNat ++ List.replicate (n.toNat - digits.length) '0'
    let rest := digits.drop n.toNat
    if rest.isEmpty then whole ++ (if mark then ['.', '0'] else [])
    else whole ++ '.' :: rest

def magnitude (layout : Layout) (d : Decimal) : List Char :=
  let digits := decimal d.digits
  let e := if d.digits = 0 then 0 else d.exponent + digits.length - 1
  if layout.positional e then point layout.wholeMark digits (e + 1)
  else
    point layout.mantissaMark digits 1 ++ 'e' ::
      ((if e < 0 then ['-'] else if layout.exponentPlus then ['+'] else []) ++
        padded layout.exponentWidth e.natAbs)

def chars (layout : Layout) (negative : Bool) (d : Decimal) : List Char :=
  if negative then '-' :: layout.magnitude d else layout.magnitude d

end Layout

end Relata
