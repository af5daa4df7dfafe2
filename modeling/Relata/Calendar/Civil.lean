/-! # The civil calendar

Days counted from the first of January of the year one, in the proleptic Gregorian
calendar, and the year, month and day that a count stands for.
-/

namespace Relata.Calendar

def isLeap (y : Int) : Bool :=
  y % 4 == 0 && (y % 100 != 0 || y % 400 == 0)

def daysBeforeYear (y : Int) : Int :=
  365 * (y - 1) + (y - 1) / 4 - (y - 1) / 100 + (y - 1) / 400

def daysInMonth (leap : Bool) (month : Nat) : Nat :=
  if month = 2 then (if leap then 29 else 28)
  else if month = 4 ∨ month = 6 ∨ month = 9 ∨ month = 11 then 30
  else 31

def daysBeforeMonth (leap : Bool) : Nat → Nat
  | 0 => 0
  | 1 => 0
  | m + 2 => daysBeforeMonth leap (m + 1) + daysInMonth leap (m + 1)

/-- The year in which a day lies: an estimate from the length of four centuries,
which misses by one at most. -/
def yearOf (d : Int) : Int :=
  let y := d * 400 / 146097 + 1
  if d < daysBeforeYear y then y - 1
  else if daysBeforeYear (y + 1) ≤ d then y + 1
  else y

/-- The month of a day of the year, and its day of that month, both from one; `d`
days remain from the first of the month `m` on. -/
def monthFrom (leap : Bool) (m d : Nat) : Nat → Nat × Nat
  | 0 => (m, d + 1)
  | months + 1 =>
    if d < daysInMonth leap m then (m, d + 1)
    else monthFrom leap (m + 1) (d - daysInMonth leap m) months

end Relata.Calendar

namespace Relata

structure Date where
  year : Int
  month : Nat
  day : Nat
  deriving DecidableEq

namespace Date

open Calendar

def isValid (d : Date) : Bool :=
  1 ≤ d.month && d.month ≤ 12 && 1 ≤ d.day && d.day ≤ daysInMonth (isLeap d.year) d.month

/-- The days since the first of January of the year one. -/
def toDays (d : Date) : Int :=
  daysBeforeYear d.year + daysBeforeMonth (isLeap d.year) d.month + d.day - 1

def ofDays (n : Int) : Date :=
  let y := yearOf n
  let (m, d) := monthFrom (isLeap y) 1 (n - daysBeforeYear y).toNat 11
  ⟨y, m, d⟩

end Date

end Relata
