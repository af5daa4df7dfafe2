import Relata.Json.Basic
import Relata.Number.Layout

/-! # Writing structural data

The compact form, without blanks, and the indented form. Numbers that are not
finite have no spelling and are written as null.
-/

namespace Relata.Json

open Text

def hexDigit (n : Nat) : Char :=
  if n < 10 then digitChar n else Char.ofNat ('a'.toNat + n - 10)

/-- A character inside a string. Only the quote, the backslash and control
characters are escaped. -/
def escape (c : Char) : List Char :=
  if c = '"' then ['\\', '"']
  else if c = '\\' then ['\\', '\\']
  else if c = '\x08' then ['\\', 'b']
  else if c = '\x0c' then ['\\', 'f']
  else if c = '\n' then ['\\', 'n']
  else if c = '\r' then ['\\', 'r']
  else if c = '\t' then ['\\', 't']
  else if c.toNat < 0x20 then
    ['\\', 'u', '0', '0', hexDigit (c.toNat / 16), hexDigit (c.toNat % 16)]
  else [c]

def quoted (s : String) : List Char :=
  '"' :: (s.toList.flatMap escape ++ ['"'])

/-- Doubles are positional from `1e-5` up to `1e16`, and always show that they
are not whole numbers of 64 bits. -/
def realLayout : Layout where
  positional e := -5 ≤ e && e < 16
  wholeMark := true
  mantissaMark := false
  exponentWidth := 1

/-- A double with the fewest digits that read back. -/
def real (x : Binary64) : List Char :=
  if x.isFinite then realLayout.chars x.isNegative (.shortest .even x)
  else "null".toList

def Number.chars : Number → List Char
  | .whole n => signed n.toInt
  | .beyond n => decimal n.toNat
  | .real x => Json.real x

mutual

def chars : Json → List Char
  | null => "null".toList
  | bool b => (if b then "true" else "false").toList
  | number n => n.chars
  | string s => quoted s
  | array xs => '[' :: charsOfItems xs
  | object ms => '{' :: charsOfMembers ms

def charsOfItems : List Json → List Char
  | [] => [']']
  | [x] => chars x ++ [']']
  | x :: xs => chars x ++ ',' :: charsOfItems xs

def charsOfMembers : List (String × Json) → List Char
  | [] => ['}']
  | [(name, x)] => quoted name ++ ':' :: (chars x ++ ['}'])
  | (name, x) :: ms => quoted name ++ ':' :: (chars x ++ ',' :: charsOfMembers ms)

end

def print (v : Json) : String :=
  String.ofList v.chars

def newLine (level : Nat) : List Char :=
  '\n' :: List.replicate (2 * level) ' '

mutual

/-- The indented form at a level: one item or member a line. -/
def indented (level : Nat) : Json → List Char
  | null => "null".toList
  | bool b => (if b then "true" else "false").toList
  | number n => n.chars
  | string s => quoted s
  | array [] => ['[', ']']
  | array (x :: xs) => '[' :: indentedItems level (x :: xs)
  | object [] => ['{', '}']
  | object (m :: ms) => '{' :: indentedMembers level (m :: ms)

def indentedItems (level : Nat) : List Json → List Char
  | [] => newLine level ++ [']']
  | x :: xs =>
    newLine (level + 1) ++ (indented (level + 1) x ++
      ((if xs.isEmpty then [] else [',']) ++ indentedItems level xs))

def indentedMembers (level : Nat) : List (String × Json) → List Char
  | [] => newLine level ++ ['}']
  | (name, x) :: ms =>
    newLine (level + 1) ++ (quoted name ++ ':' :: ' ' :: (indented (level + 1) x ++
      ((if ms.isEmpty then [] else [',']) ++ indentedMembers level ms)))

end

def pretty (v : Json) : String :=
  String.ofList (v.indented 0)

end Relata.Json
