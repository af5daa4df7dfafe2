import Relata.Store.Affinity
import Relata.Text.Ascii

/-! # Patterns

In a pattern, a percent sign stands for any characters and an underscore for any
one. Letters of ASCII match in either case. A text is read as the codes of its bytes,
whether they are well formed or not, up to the first byte of zero.
-/

namespace Relata.Pattern

/-- The code that bytes of a character amount to. Codes that no character may have, or
not in so many bytes, are read as the replacement character. -/
def settled (code : Nat) : Nat :=
  if code < 0x80 || code / 0x800 = 0x1b || code / 2 = 0x7fff then 0xfffd else code

def lead (b : UInt8) : Nat :=
  let n := b.toNat
  if n < 0xe0 then n % 0x20
  else if n < 0xf0 then n % 0x10
  else if n < 0xf8 then n % 8
  else if n < 0xfc then n % 4
  else if n < 0xfe then n % 2
  else 0

/-- The codes of bytes. A first byte takes all bytes that follow it as parts of its
character, within 32 bits; other bytes stand for themselves. -/
def codesFrom (begun : Option Nat) : List UInt8 → List Nat
  | [] => (begun.map settled).toList
  | b :: bs =>
    match begun, b.toNat / 0x40 with
    | some code, 2 => codesFrom (some ((code * 0x40 + b.toNat % 0x40) % 0x100000000)) bs
    | _, high =>
      (begun.map settled).toList ++
        if high = 3 then codesFrom (some (lead b)) bs else b.toNat :: codesFrom none bs

def codesOfBytes (bytes : List UInt8) : List Nat :=
  codesFrom none (bytes.takeWhile (· != 0))

def codesOfText (s : String) : List Nat :=
  (s.toList.takeWhile (· != '\x00')).map fun c =>
    if c.toNat < 0x80 then c.toNat else settled c.toNat

def subject? : Scalar → Option (List Nat)
  | .null => none
  | .integer n => some (codesOfText (Numeral.ofInteger n))
  | .real x => some (codesOfText (Numeral.ofReal x))
  | .text s => some (codesOfText s)
  | .blob bytes => some (codesOfBytes bytes)

def percent : Nat := 37

def underscore : Nat := 95

def fold (code : Nat) : Nat :=
  if 65 ≤ code && code ≤ 90 then code + 32 else code

def tails {α : Type} : List α → List (List α)
  | [] => [[]]
  | a :: as => (a :: as) :: tails as

def afterOne (p : Nat) : List Nat → Option (List Nat)
  | [] => none
  | c :: cs => if p = underscore || fold p = fold c then some cs else none

/-- What can be left of a text after a pattern, if one of several rests is left before
it. The rests are the ends of one text, the longest first. -/
def leftovers : List Nat → List (List Nat) → List (List Nat)
  | [], rests => rests
  | p :: ps, rests =>
    leftovers ps <|
      if p = percent then
        match rests with
        | [] => []
        | longest :: _ => tails longest
      else rests.filterMap (afterOne p)

def matchesAll (pattern text : List Nat) : Bool :=
  (leftovers pattern [text]).any List.isEmpty

def truth (pattern : String) (s : Scalar) : Option Bool :=
  (subject? s).map (matchesAll (codesOfText pattern))

/-- Patterns of more bytes than this are refused. -/
def largest : Nat := 50000

end Relata.Pattern
