import Relata.Number.Extended
import Relata.Number.Layout
import Relata.Number.Word
import Relata.Text.Ascii

/-! # Numbers as texts in the store

A column may turn numbers into texts and texts into numbers. Doubles are written
with fifteen significant digits, and a text is a number if it is a decimal with
nothing but blanks around it. Both ways go through numbers of 64 significant bits, so
that the last digit may differ from the nearest one.
-/

namespace Relata.Numeral

open Text

/-- Doubles show a point, and an exponent of two digits at least. -/
def layout : Layout where
  positional e := -4 ≤ e && e ≤ 14
  wholeMark := true
  mantissaMark := true
  exponentWidth := 2

/-- The fifteen digits of a finite double: those in front of its scaled digits, a half
upwards. -/
def fifteen (x : Binary64) : Decimal :=
  if x.units = 0 then ⟨0, 0⟩
  else
    let (scaled, e) := (Extended.ofBinary64 x).digits
    let n := scaled.floor
    let dropped := (decimal n).length - 15
    let place := Nat.pow 10 (dropped - 1)
    let front := n / (10 * place) + if 5 ≤ n / place % 10 then 1 else 0
    .trimmed front (e + dropped)

/-- The text of a double. Zero has no sign. -/
def ofReal (x : Binary64) : String :=
  if x.isNaN then ""
  else if !x.isFinite then (if x.isNegative then "-Inf" else "Inf")
  else String.ofList (layout.chars (x.isNegative && x.units != 0) (fifteen x))

def ofInteger (n : Int64) : String :=
  String.ofList (Text.signed n.toInt)

def isBlank (c : Char) : Bool :=
  c == ' ' || c == '\t' || c == '\n' || c == '\x0b' || c == '\x0c' || c == '\r'

/-- A decimal in front of a text: its sign, its digits before and after the point, its
exponent, whether it is written without point and exponent, and what follows. -/
structure Scan where
  negative : Bool
  digits : List Char
  places : List Char
  exponent : Int
  whole : Bool
  rest : List Char

/-- The value of an exponent. From five digits on it is as good as any other. -/
def exponentOf (digits : List Char) : Nat :=
  digits.foldl (fun n c => if n < 10000 then 10 * n + digitValue c else 10000) 0

def scanExponent (cs : List Char) : Option (Int × List Char) :=
  match cs with
  | c :: more =>
    if c = 'e' || c = 'E' then
      let (negative, more) := match more with
        | '-' :: more => (true, more)
        | '+' :: more => (false, more)
        | more => (false, more)
      let digits := more.takeWhile isDigit
      if digits.isEmpty then none
      else
        let n : Int := exponentOf digits
        some (if negative then -n else n, more.dropWhile isDigit)
    else none
  | [] => none

/-- The decimal in front, after blanks; there has to be a digit. -/
def scan (cs : List Char) : Option Scan :=
  let cs := cs.dropWhile isBlank
  let (negative, cs) := match cs with
    | '-' :: cs => (true, cs)
    | '+' :: cs => (false, cs)
    | cs => (false, cs)
  let digits := cs.takeWhile isDigit
  let rest := cs.dropWhile isDigit
  let (places, rest, pointed) := match rest with
    | '.' :: more => (more.takeWhile isDigit, more.dropWhile isDigit, true)
    | rest => ([], rest, false)
  if digits.isEmpty && places.isEmpty then none
  else
    match scanExponent rest with
    | some (e, rest) => some ⟨negative, digits, places, e, false, rest⟩
    | none => some ⟨negative, digits, places, 0, !pointed, rest⟩

namespace Scan

/-- More digits are not taken into a significand that has reached this bound. -/
def enough : Nat := 1844674407370955160

/-- Digits before the point: those beyond enough count as places. -/
def takeDigits : Nat × Int → List Char → Nat × Int
  | taken, [] => taken
  | (s, e), c :: cs =>
    takeDigits (if s < enough then (10 * s + digitValue c, e) else (s, e + 1)) cs

/-- Digits after the point: those beyond enough are dropped. -/
def takePlaces : Nat × Int → List Char → Nat × Int
  | taken, [] => taken
  | (s, e), c :: cs =>
    takePlaces (if s < enough then (10 * s + digitValue c, e - 1) else (s, e)) cs

/-- A larger significand instead of an exponent above zero, within 64 bits. -/
def raise : Nat → Nat × Int → Nat × Int
  | 0, x => x
  | fuel + 1, (s, e) =>
    if 0 < e && s < 1844674407370955161 then raise fuel (10 * s, e - 1) else (s, e)

def reduce : Nat → Nat × Int → Nat × Int
  | 0, x => x
  | fuel + 1, (s, e) =>
    if e < 0 && s % 10 = 0 then reduce fuel (s / 10, e + 1) else (s, e)

def toReal (t : Scan) : Binary64 :=
  let (s, e) := takePlaces (takeDigits (0, 0) t.digits) t.places
  if s = 0 then .ofMagnitude t.negative 0
  else
    let (s, e) := reduce 20 (raise 20 (s, e + t.exponent))
    if e = 0 then .ofRatio t.negative s 1
    else ((Extended.ofNat s).shift e).toBinary64 t.negative

def integer (t : Scan) : Int :=
  let n := valueOfDigits t.digits
  if t.negative then -n else n

end Scan

inductive Number
  | integer (n : Int64)
  | real (x : Binary64)

def number? (s : String) : Option Number :=
  match scan s.toList with
  | some t =>
    if t.rest.all isBlank then
      if t.whole && Word.holdsSigned t.integer then some (.integer (Int64.ofInt t.integer))
      else some (.real t.toReal)
    else none
  | none => none

/-- The number in front of a text; zero if there is none. -/
def leading (s : String) : Binary64 :=
  match scan s.toList with
  | some t => t.toReal
  | none => .zero

/-- The integer that a double is equal to, within 64 bits and short of their ends. -/
def integral? (x : Binary64) : Option Int64 :=
  match x.toInt? with
  | some n =>
    if Word.holdsSigned (n - 1) && Word.holdsSigned (n + 1) then some (Int64.ofInt n) else none
  | none => none

end Relata.Numeral
