import Relata.Json.Basic
import Relata.Number.Word
import Relata.Text.Ascii

/-! # Reading structural data

The grammar of RFC 8259, on characters. Each reader takes the characters in front
of it and hands back those that it leaves; the fuel of the recursive ones is the
count of characters, which a value never exceeds in depth.
-/

namespace Relata.Json

open Text

def skipBlanks (cs : List Char) : List Char :=
  cs.dropWhile fun c => c == ' ' || c == '\n' || c == '\r' || c == '\t'

def hexValue? (c : Char) : Option Nat :=
  if isDigit c then some (digitValue c)
  else if 'a' ≤ c && c ≤ 'f' then some (c.toNat - 'a'.toNat + 10)
  else if 'A' ≤ c && c ≤ 'F' then some (c.toNat - 'A'.toNat + 10)
  else none

def codeUnit? : List Char → Option (Nat × List Char)
  | a :: b :: c :: d :: rest => do
    let a ← hexValue? a
    let b ← hexValue? b
    let c ← hexValue? c
    let d ← hexValue? d
    some (((a * 16 + b) * 16 + c) * 16 + d, rest)
  | _ => none

/-- The character after the letter `u` of an escape; a high surrogate takes the
low one that has to follow. -/
def escapedUnit? (cs : List Char) : Option (Char × List Char) := do
  let (u, rest) ← codeUnit? cs
  if 0xD800 ≤ u && u < 0xDC00 then
    match rest with
    | '\\' :: 'u' :: rest =>
      let (v, rest) ← codeUnit? rest
      if 0xDC00 ≤ v && v < 0xE000 then
        some (Char.ofNat (0x10000 + (u - 0xD800) * 0x400 + (v - 0xDC00)), rest)
      else none
    | _ => none
  else if 0xDC00 ≤ u && u < 0xE000 then none
  else some (Char.ofNat u, rest)

def escaped? : List Char → Option (Char × List Char)
  | '"' :: rest => some ('"', rest)
  | '\\' :: rest => some ('\\', rest)
  | '/' :: rest => some ('/', rest)
  | 'b' :: rest => some ('\x08', rest)
  | 'f' :: rest => some ('\x0c', rest)
  | 'n' :: rest => some ('\n', rest)
  | 'r' :: rest => some ('\r', rest)
  | 't' :: rest => some ('\t', rest)
  | 'u' :: rest => escapedUnit? rest
  | _ => none

/-- The characters of a string after its opening quote, up to the closing one. -/
def stringBody? : Nat → List Char → Option (List Char × List Char)
  | 0, _ => none
  | _ + 1, [] => none
  | fuel + 1, c :: rest =>
    if c = '"' then some ([], rest)
    else if c = '\\' then do
      let (d, rest) ← escaped? rest
      let (body, rest) ← stringBody? fuel rest
      some (d :: body, rest)
    else if c.toNat < 0x20 then none
    else do
      let (body, rest) ← stringBody? fuel rest
      some (c :: body, rest)

def takeDigits (cs : List Char) : List Char × List Char :=
  (cs.takeWhile isDigit, cs.dropWhile isDigit)

def fraction? : List Char → Option (Option (List Char) × List Char)
  | '.' :: cs =>
    let (digits, rest) := takeDigits cs
    if digits.isEmpty then none else some (some digits, rest)
  | cs => some (none, cs)

def exponent? : List Char → Option (Option Int × List Char)
  | c :: cs =>
    if c = 'e' || c = 'E' then
      let (negative, cs) := match cs with
        | '-' :: cs => (true, cs)
        | '+' :: cs => (false, cs)
        | cs => (false, cs)
      let (digits, rest) := takeDigits cs
      if digits.isEmpty then none
      else
        let n : Int := valueOfDigits digits
        some (some (if negative then -n else n), rest)
    else some (none, c :: cs)
  | [] => some (none, [])

/-- The number of a sign, digits, and no point or exponent. Minus zero and what
fits no 64 bits are doubles. -/
def Number.ofDigits (negative : Bool) (digits : List Char) : Number :=
  let n := valueOfDigits digits
  if negative then
    if n = 0 || 0x8000000000000000 < n then .real (.ofDecimal true n 0)
    else .whole (Int64.ofInt (-n))
  else if Word.holdsSigned n then .whole (Int64.ofNat n)
  else if Word.holds n then .beyond (UInt64.ofNat n)
  else .real (.ofDecimal false n 0)

/-- A number token: no leading zeros, digits on both sides of a point. -/
def number? (cs : List Char) : Option (Number × List Char) := do
  let (negative, cs) := match cs with
    | '-' :: cs => (true, cs)
    | cs => (false, cs)
  let (digits, rest) := takeDigits cs
  if digits.isEmpty || (digits.length > 1 && digits.head? == some '0') then none
  else
    let (fraction, rest) ← fraction? rest
    let (exponent, rest) ← exponent? rest
    if fraction.isNone && exponent.isNone then some (.ofDigits negative digits, rest)
    else
      let places := fraction.getD []
      let m := valueOfDigits (digits ++ places)
      some (.real (.ofDecimal negative m (exponent.getD 0 - places.length)), rest)

def keyword? (word : String) (cs : List Char) : Option (List Char) :=
  if word.toList.isPrefixOf cs then some (cs.drop word.length) else none

mutual

def value? : Nat → List Char → Option (Json × List Char)
  | 0, _ => none
  | fuel + 1, cs =>
    match skipBlanks cs with
    | '{' :: rest =>
      match skipBlanks rest with
      | '}' :: rest => some (.object [], rest)
      | rest => (members? fuel rest).map fun (ms, rest) => (.object ms, rest)
    | '[' :: rest =>
      match skipBlanks rest with
      | ']' :: rest => some (.array [], rest)
      | rest => (items? fuel rest).map fun (xs, rest) => (.array xs, rest)
    | '"' :: rest =>
      (stringBody? fuel rest).map fun (s, rest) => (.string (String.ofList s), rest)
    | 't' :: rest => (keyword? "rue" rest).map fun rest => (.bool true, rest)
    | 'f' :: rest => (keyword? "alse" rest).map fun rest => (.bool false, rest)
    | 'n' :: rest => (keyword? "ull" rest).map fun rest => (.null, rest)
    | rest => (number? rest).map fun (n, rest) => (.number n, rest)

def items? : Nat → List Char → Option (List Json × List Char)
  | 0, _ => none
  | fuel + 1, cs => do
    let (x, rest) ← value? fuel cs
    match skipBlanks rest with
    | ',' :: rest =>
      let (xs, rest) ← items? fuel rest
      some (x :: xs, rest)
    | ']' :: rest => some ([x], rest)
    | _ => none

def members? : Nat → List Char → Option (List (String × Json) × List Char)
  | 0, _ => none
  | fuel + 1, cs =>
    match skipBlanks cs with
    | '"' :: rest => do
      let (name, rest) ← stringBody? fuel rest
      match skipBlanks rest with
      | ':' :: rest =>
        let (x, rest) ← value? fuel rest
        match skipBlanks rest with
        | ',' :: rest =>
          let (ms, rest) ← members? fuel rest
          some ((String.ofList name, x) :: ms, rest)
        | '}' :: rest => some ([(String.ofList name, x)], rest)
        | _ => none
      | _ => none
    | _ => none

end

/-- The value that a text spells, with nothing but blanks around it. -/
def read? (text : String) : Option Json :=
  let cs := text.toList
  match value? (cs.length + 1) cs with
  | some (v, rest) => if (skipBlanks rest).isEmpty then some v else none
  | none => none

end Relata.Json
