import Relata.Number.Binary64

/-! # Numbers of 64 significant bits

Decimals are turned into doubles and back over positive numbers with a few more bits
than a double has, which are multiplied by powers of ten step by step. Each product is
rounded once, to the nearest number, ties to even.
-/

namespace Relata

/-- The number `mantissa * 2 ^ exponent`. -/
structure Extended where
  mantissa : Nat
  exponent : Int

namespace Extended

/-- The number of 64 bits nearest to `num / den * 2 ^ e`, for naturals above zero. -/
def ofRatio (num den : Nat) (e : Int) : Extended :=
  let k : Int := Nat.log2 num - Nat.log2 den - 63
  let (n, d) := scaled k
  if d <<< 63 ≤ n then ⟨Binary64.nearestEven n d, e + k⟩
  else
    let (n, d) := scaled (k - 1)
    ⟨Binary64.nearestEven n d, e + k - 1⟩
where
  /-- The quotient divided by a power of two. -/
  scaled (k : Int) : Nat × Nat :=
    if 0 ≤ k then (num, den <<< k.toNat) else (num <<< (-k).toNat, den)

def ofNat (n : Nat) : Extended :=
  ofRatio n 1 0

def power (e : Int) : Extended :=
  if 0 ≤ e then ofRatio (Nat.pow 10 e.toNat) 1 0 else ofRatio 1 (Nat.pow 10 (-e).toNat) 0

/-- The magnitude of a finite double other than zero, which has fewer bits. -/
def ofBinary64 (x : Binary64) : Extended :=
  ofRatio x.units 1 (-1074)

def mul (x y : Extended) : Extended :=
  ofRatio (x.mantissa * y.mantissa) 1 (x.exponent + y.exponent)

/-- The product with so many equal factors, rounded after each of them. -/
def mulTimes (factor : Extended) : Nat → Extended → Extended
  | 0, x => x
  | n + 1, x => mulTimes factor n (x.mul factor)

def atMost (x y : Extended) : Bool :=
  let d := x.exponent - y.exponent
  if 0 ≤ d then x.mantissa <<< d.toNat ≤ y.mantissa else x.mantissa ≤ y.mantissa <<< (-d).toNat

def floor (x : Extended) : Nat :=
  if 0 ≤ x.exponent then x.mantissa <<< x.exponent.toNat else x.mantissa >>> (-x.exponent).toNat

/-- The double nearest to a number with a sign. What is above the largest finite double
is infinite. -/
def toBinary64 (negative : Bool) (x : Extended) : Binary64 :=
  let largest := ofBinary64 (.ofMagnitude false (Binary64.infinityBits - 1))
  if x.atMost largest then
    let e := x.exponent + 1074
    if 0 ≤ e then .ofUnits negative (x.mantissa <<< e.toNat) 1
    else .ofUnits negative x.mantissa (1 <<< (-e).toNat)
  else .ofMagnitude negative Binary64.infinityBits

/-- The product with `10 ^ e`: factors of a hundred digits, of ten, and of one. -/
def shift (x : Extended) (e : Int) : Extended :=
  let n := e.natAbs
  let s : Int := if e < 0 then -1 else 1
  mulTimes (power s) (n % 10)
    (mulTimes (power (10 * s)) (n % 100 / 10) (mulTimes (power (100 * s)) (n / 100) x))

abbrev Scaled := Extended × Int

def divideWhile (holds : Extended → Bool) (e : Int) : Nat → Scaled → Scaled
  | 0, x => x
  | fuel + 1, (x, shift) =>
    if holds x then divideWhile holds e fuel (x.mul (power (-e)), shift + e) else (x, shift)

/-- A number scaled to 18 or 19 digits before the point. No double takes more steps. -/
def digits (x : Extended) : Scaled :=
  let atLeast (e : Int) (x : Extended) := (power e).atMost x
  let below (e : Int) (x : Extended) := !(power e).atMost x
  if atLeast 19 x then
    divideWhile (atLeast 19) 1 12 (divideWhile (atLeast 29) 10 12
      (divideWhile (atLeast 119) 100 12 (x, 0)))
  else
    divideWhile (below 17) (-1) 12 (divideWhile (below 7) (-10) 12
      (divideWhile (below (-97)) (-100) 12 (x, 0)))

end Extended

end Relata
