import Relata.Calendar.Civil
import Relata.Text.Ascii

/-! # Instants and their texts

An instant is a count of seconds of the epoch that starts with 1970 and a fraction
in nanoseconds; a leap second repeats the second before it with a fraction of one
second or more. Instants are written in the form of RFC 3339, in universal time
and with milliseconds, so that the texts of the years 0 to 9999 order as the
instants do.
-/

namespace Relata

structure Instant where
  seconds : Int
  nanos : Nat
  deriving DecidableEq

/-- A point in universal time by its date and time of day. -/
structure Clock where
  date : Date
  hour : Nat
  minute : Nat
  second : Nat
  nanos : Nat

namespace Calendar

open Text

/-- Years of four digits stand alone; others carry a sign. -/
def yearChars (y : Int) : List Char :=
  if 0 ≤ y ∧ y ≤ 9999 then padded 4 y.natAbs
  else (if y < 0 then '-' else '+') :: padded 4 y.natAbs

/-- The days from the first of January of the year one to the epoch. -/
def epoch : Int := 719162

end Calendar

open Calendar Text

def Date.chars (d : Date) : List Char :=
  yearChars d.year ++ '-' :: (padded 2 d.month ++ '-' :: padded 2 d.day)

def Date.text (d : Date) : String :=
  String.ofList d.chars

namespace Instant

/-- The clock of an instant; a leap second is its second sixty. -/
def clock (t : Instant) : Clock :=
  let s := (t.seconds % 86400).toNat
  { date := .ofDays (t.seconds / 86400 + epoch)
    hour := s / 3600
    minute := s / 60 % 60
    second := s % 60 + t.nanos / 1000000000
    nanos := t.nanos % 1000000000 }

def ofClock (c : Clock) : Instant :=
  let leap := c.second / 60
  { seconds := (c.date.toDays - epoch) * 86400 + c.hour * 3600 + c.minute * 60 + (c.second - leap)
    nanos := c.nanos + leap * 1000000000 }

/-- Date, time of day and milliseconds, in universal time. -/
def chars (t : Instant) : List Char :=
  let c := t.clock
  c.date.chars ++ 'T' :: (padded 2 c.hour ++ ':' :: (padded 2 c.minute ++
    ':' :: (padded 2 c.second ++ '.' :: (padded 3 (c.nanos / 1000000) ++ ['Z']))))

def text (t : Instant) : String :=
  String.ofList t.chars

def digits? (n : Nat) (cs : List Char) : Option (Nat × List Char) :=
  let front := cs.take n
  if front.length = n && front.all isDigit then some (valueOfDigits front, cs.drop n)
  else none

def char? (p : Char → Bool) : List Char → Option (List Char)
  | c :: cs => if p c then some cs else none
  | [] => none

/-- A fraction of a second in nanoseconds; digits beyond the ninth are dropped. -/
def fraction? : List Char → Option (Nat × List Char)
  | '.' :: cs =>
    let digits := cs.takeWhile isDigit
    if digits.isEmpty then none
    else
      let front := digits.take 9
      some (valueOfDigits front * Nat.pow 10 (9 - front.length), cs.dropWhile isDigit)
  | cs => some (0, cs)

def offset? : List Char → Option (Int × List Char)
  | [] => none
  | c :: cs =>
    if c = 'Z' || c = 'z' then some (0, cs)
    else if c = '+' || c = '-' || c = '\u2212' then do
      let (h, cs) ← digits? 2 cs
      let cs ← char? (· == ':') cs
      let (m, cs) ← digits? 2 cs
      let s : Int := h * 3600 + m * 60
      if 60 ≤ m || 86400 ≤ s then none else some (if c = '+' then s else -s, cs)
    else none

/-- The instant of a text in the form of RFC 3339. -/
def ofChars? (cs : List Char) : Option Instant := do
  let (y, cs) ← digits? 4 cs
  let cs ← char? (· == '-') cs
  let (mo, cs) ← digits? 2 cs
  let cs ← char? (· == '-') cs
  let (d, cs) ← digits? 2 cs
  let cs ← char? (fun c => c == 'T' || c == 't' || c == ' ') cs
  let (h, cs) ← digits? 2 cs
  let cs ← char? (· == ':') cs
  let (mi, cs) ← digits? 2 cs
  let cs ← char? (· == ':') cs
  let (s, cs) ← digits? 2 cs
  let (nanos, cs) ← fraction? cs
  let (offset, cs) ← offset? cs
  let date : Date := ⟨y, mo, d⟩
  if cs.isEmpty && date.isValid && h < 24 && mi < 60 && s ≤ 60 then
    let t := ofClock ⟨date, h, mi, s, nanos⟩
    some { t with seconds := t.seconds - offset }
  else none

def ofText? (s : String) : Option Instant :=
  ofChars? s.toList

end Instant

end Relata
