import Relata.Json.Printer
import Relata.Text.Hidden
import Relata.Text.Separated
import Relata.Value.Basic

/-! # Descriptions of values

How a message speaks of a value: its class, and what it holds in parentheses.
-/

namespace Relata.Value

open Text

def hexadecimal (n : Nat) : List Char :=
  if n < 16 then [Json.hexDigit n] else hexadecimal (n / 16) ++ [Json.hexDigit (n % 16)]

/-- A character of a described text. Quotes, backslashes and characters that have no
shape of their own are escaped. -/
def describedChar (c : Char) : List Char :=
  if c = '"' then ['\\', '"']
  else if c = '\\' then ['\\', '\\']
  else if c = '\n' then ['\\', 'n']
  else if c = '\r' then ['\\', 'r']
  else if c = '\t' then ['\\', 't']
  else if c = '\x00' then ['\\', '0']
  else if isHidden c then ['\\', 'u', '\x7b'] ++ hexadecimal c.toNat ++ ['\x7d']
  else [c]

def describedText (s : String) : String :=
  String.ofList ('"' :: (s.toList.flatMap describedChar ++ ['"']))

/-- Doubles are positional from `1e-4` up to `1e16`, and elsewhere have a bare exponent. -/
def describedLayout : Layout where
  positional e := -4 ≤ e && e < 16
  wholeMark := true
  mantissaMark := false
  exponentWidth := 1
  exponentPlus := false

def describedReal (x : Binary64) : String :=
  String.ofList (describedLayout.chars x.isNegative (.shortest .up x))

/-- A fraction of a second in nanoseconds: nothing if it is zero, else as many groups of
three digits as it needs. -/
def describedFraction (nanos : Nat) : List Char :=
  if nanos = 0 then []
  else if nanos % 1000000 = 0 then '.' :: padded 3 (nanos / 1000000)
  else if nanos % 1000 = 0 then '.' :: padded 6 (nanos / 1000)
  else '.' :: padded 9 nanos

def describedInstant (t : Instant) : String :=
  let c := t.clock
  String.ofList (c.date.chars ++ 'T' :: (padded 2 c.hour ++ ':' :: (padded 2 c.minute ++
    ':' :: (padded 2 c.second ++ describedFraction c.nanos ++ ['Z']))))

mutual

def described : Value → String
  | null => "Null"
  | bool b => "Bool(" ++ (if b then "true" else "false") ++ ")"
  | integer n => "Integer(" ++ String.ofList (signed n.toInt) ++ ")"
  | real x => "Real(" ++ describedReal x ++ ")"
  | text s => "Text(" ++ describedText s ++ ")"
  | blob bytes =>
    "Blob([" ++ separated ", " (bytes.map fun b => String.ofList (decimal b.toNat)) ++ "])"
  | timestamp t => "Timestamp(" ++ describedInstant t ++ ")"
  | date d => "Date(" ++ d.text ++ ")"
  | array items => "Array([" ++ separated ", " (describedItems items) ++ "])"
  | object fields => "Object(\x7b" ++ separated ", " (describedFields fields) ++ "\x7d)"

def describedItems : List Value → List String
  | [] => []
  | v :: vs => described v :: describedItems vs

def describedFields : List (String × Value) → List String
  | [] => []
  | (name, v) :: rest => (describedText name ++ ": " ++ described v) :: describedFields rest

end

end Relata.Value
