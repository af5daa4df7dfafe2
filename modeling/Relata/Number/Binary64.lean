/-! # Double precision numbers

A number is the 64 bits that interchange formats give it, and its meaning is
exact: a finite one is a whole number of units of `2 ^ -1074`, with a sign.
Rounding an exact quotient to the nearest double, ties to even, is one function,
and reading, converting and calculating all go through it.
-/

namespace Relata

/-- A double precision number, held as its bits. -/
structure Binary64 where
  bits : UInt64
  deriving DecidableEq

namespace Binary64

/-- The magnitude bits of infinity: every larger magnitude is not a number. -/
def infinityBits : Nat := 0x7ff0000000000000

def isNegative (x : Binary64) : Bool :=
  0x8000000000000000 ≤ x.bits.toNat

/-- The bits without the sign. Magnitudes are ordered as these numbers are. -/
def magnitude (x : Binary64) : Nat :=
  x.bits.toNat % 0x8000000000000000

def ofMagnitude (negative : Bool) (m : Nat) : Binary64 :=
  ⟨UInt64.ofNat (if negative then 0x8000000000000000 + m else m)⟩

def isNaN (x : Binary64) : Bool :=
  infinityBits < x.magnitude

def isFinite (x : Binary64) : Bool :=
  x.magnitude < infinityBits

/-- The one number of these bits; all that are not numbers become one. -/
def ofBits (bits : UInt64) : Binary64 :=
  if (Binary64.mk bits).isNaN then ⟨0x7ff8000000000000⟩ else ⟨bits⟩

def nan : Binary64 := ⟨0x7ff8000000000000⟩

def zero : Binary64 := ⟨0⟩

/-- The magnitude bits of one step of the exponent. -/
def binade : Nat := 0x10000000000000

/-- The magnitude of a finite number in units of `2 ^ -1074`: the significand,
shifted by the exponent above the smallest. -/
def units (x : Binary64) : Nat :=
  let e := x.magnitude / binade
  let f := x.magnitude % binade
  if e = 0 then f else (binade + f) <<< (e - 1)

def unit : Nat := 1 <<< 1074

def value (x : Binary64) : Int :=
  if x.isNegative then -(x.units : Int) else x.units

/-- The quotient of two naturals rounded to nearest, ties to even. -/
def nearestEven (num den : Nat) : Nat :=
  let q := num / den
  let r := num % den
  if 2 * r < den then q
  else if 2 * r = den then q + q % 2
  else q + 1

/-- The magnitude bits nearest to `num / den` units, ties to even; from the
midpoint above the largest finite number on, infinity. -/
def roundMagnitude (num den : Nat) : Nat :=
  let k := Nat.log2 (num / den) - 52
  min (k * binade + nearestEven num (den <<< k)) infinityBits

def ofUnits (negative : Bool) (num den : Nat) : Binary64 :=
  ofMagnitude negative (roundMagnitude num den)

def ofRatio (negative : Bool) (num den : Nat) : Binary64 :=
  ofUnits negative (num * unit) den

def ofInt (n : Int) : Binary64 :=
  ofRatio (n < 0) n.natAbs 1

/-- The double nearest to `m * 10 ^ e`. Exponents far outside the range of
doubles are cut before the power is taken. -/
def ofDecimal (negative : Bool) (m : Nat) (e : Int) : Binary64 :=
  if m = 0 then ofMagnitude negative 0
  else
    if (Nat.log2 m : Int) * 3 / 10 + e > 400 then ofMagnitude negative infinityBits
    else if (Nat.log2 m : Int) / 3 + e < -400 then ofMagnitude negative 0
    else if 0 ≤ e then ofRatio negative (m * Nat.pow 10 e.toNat) 1
    else ofRatio negative m (Nat.pow 10 (-e).toNat)

def neg (x : Binary64) : Binary64 :=
  ofMagnitude (!x.isNegative) x.magnitude

/-- The sum, rounded once. Exact opposites add to a positive zero, and zeros
keep a sign that both share. -/
def add (x y : Binary64) : Binary64 :=
  if x.isNaN || y.isNaN then nan
  else if !x.isFinite then
    if !y.isFinite && x.isNegative != y.isNegative then nan else x
  else if !y.isFinite then y
  else
    let s := x.value + y.value
    if s = 0 then ofMagnitude (x.isNegative && y.isNegative) 0
    else ofUnits (s < 0) s.natAbs 1

def sub (x y : Binary64) : Binary64 :=
  x.add y.neg

def div (x y : Binary64) : Binary64 :=
  if x.isNaN || y.isNaN then nan
  else
    let negative := x.isNegative != y.isNegative
    if !x.isFinite then
      if y.isFinite then ofMagnitude negative infinityBits else nan
    else if !y.isFinite then ofMagnitude negative 0
    else if y.units = 0 then
      if x.units = 0 then nan else ofMagnitude negative infinityBits
    else ofRatio negative x.units y.units

def toInt? (x : Binary64) : Option Int :=
  if x.isFinite && x.units % unit == 0 then some (x.value / unit) else none

def beyond : Nat := 1 <<< 2100

/-- The value in units, with infinities beyond every finite number and every
integer of 64 bits. -/
def extended (x : Binary64) : Int :=
  if x.isFinite then x.value
  else if x.isNegative then -(beyond : Int) else beyond

def compare (x y : Binary64) : Ordering :=
  Ord.compare x.extended y.extended

def compareInt (x : Binary64) (n : Int) : Ordering :=
  Ord.compare x.extended (n * unit)

end Binary64

end Relata
