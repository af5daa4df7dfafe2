import Relata.Number.Binary64

/-! # Decimal digits of a double

A finite double is written with as few digits as read back to it. They are found on
the decimal grids around the exact value, in whole numbers only.
-/

namespace Relata

/-- The number `digits * 10 ^ exponent`. -/
structure Decimal where
  digits : Nat
  exponent : Int
  deriving DecidableEq

namespace Decimal

inductive Tie
  | even
  | up
  deriving DecidableEq

def trimmed (digits : Nat) (exponent : Int) : Decimal :=
  if h : digits ≠ 0 ∧ digits % 10 = 0 then trimmed (digits / 10) (exponent + 1)
  else ⟨digits, exponent⟩
termination_by digits
decreasing_by omega

/-- The quotient of `num` units by `10 ^ p`, as numerator and denominator. -/
def onGrid (num : Nat) (p : Int) : Nat × Nat :=
  if 0 ≤ p then (num, Binary64.unit * Nat.pow 10 p.toNat)
  else (num * Nat.pow 10 (-p).toNat, Binary64.unit)

/-- The exponent of the leading digit of `u > 0` units: the largest `e` with
`10 ^ e` units of one at most `u`. Powers of two give it within one. -/
def leading (u : Nat) : Int :=
  let e := ((Nat.log2 u : Int) - 1074) * 30103 / 100000
  if reaches (e + 1) then e + 1 else if reaches e then e else e - 1
where
  reaches (e : Int) : Bool :=
    let (num, den) := onGrid u e
    den ≤ num

/-- The interval of exact values that round to the double of magnitude `m`, in
half units; its ends belong to it when the magnitude is even. -/
structure Interval where
  low : Nat
  high : Nat
  closed : Bool

def Interval.of (m : Nat) : Interval :=
  let u (k : Nat) := (Binary64.ofMagnitude false k).units
  ⟨u (m - 1) + u m, u m + u (m + 1), m % 2 == 0⟩

def Interval.contains (i : Interval) (d : Nat) (p : Int) : Bool :=
  let (low, den) := onGrid i.low p
  let (high, _) := onGrid i.high p
  let twice := 2 * d * den
  if i.closed then low ≤ twice && twice ≤ high else low < twice && twice < high

/-- The grid point of `n` digits that is in the interval and nearest to `u` units. -/
def nearest? (tie : Tie) (i : Interval) (u : Nat) (p : Int) : Option Nat :=
  let (num, den) := onGrid u p
  let d := num / den
  let r := num % den
  let lower := i.contains d p
  let upper := i.contains (d + 1) p
  if lower && upper then
    if 2 * r < den then some d
    else if 2 * r = den then
      match tie with
      | .even => some (d + d % 2)
      | .up => some (d + 1)
    else some (d + 1)
  else if lower then some d
  else if upper then some (d + 1)
  else none

/-- Grids of `n`, `n + 1`, … digits are tried until one has a point in the interval. -/
def search (tie : Tie) (i : Interval) (u : Nat) (e : Int) : Nat → Nat → Decimal
  | n, 0 => ⟨(let (num, den) := onGrid u (e + 1 - n); num / den), e + 1 - n⟩
  | n, fuel + 1 =>
    match nearest? tie i u (e + 1 - n) with
    | some d => ⟨d, e + 1 - n⟩
    | none => search tie i u e (n + 1) fuel

/-- The fewest digits that read back as the finite number `x`, and of those the
nearest to it. Seventeen digits always do. -/
def shortest (tie : Tie) (x : Binary64) : Decimal :=
  if x.units = 0 then ⟨0, 0⟩
  else
    let d := search tie (.of x.magnitude) x.units (leading x.units) 1 17
    trimmed d.digits d.exponent

def toBinary64 (negative : Bool) (d : Decimal) : Binary64 :=
  .ofDecimal negative d.digits d.exponent

end Decimal

end Relata
