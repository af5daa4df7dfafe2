/-! # Numbers in base thirty-six

Positional spelling with the digits `0` to `9` and `a` to `z`, most significant
digit first and without leading zeros.
-/

namespace Relata.Text.Base36

def alphabet : List Char :=
  ['0', '1', '2', '3', '4', '5', '6', '7', '8', '9',
    'a', 'b', 'c', 'd', 'e', 'f', 'g', 'h', 'i', 'j', 'k', 'l', 'm',
    'n', 'o', 'p', 'q', 'r', 's', 't', 'u', 'v', 'w', 'x', 'y', 'z']

def digit (n : Nat) : Char :=
  alphabet.getD n '0'

def encode (n : Nat) : List Char :=
  if n < 36 then [digit n] else encode (n / 36) ++ [digit (n % 36)]

def value? (c : Char) : Option Nat :=
  alphabet.idxOf? c

/-- The number that a spelling stands for, if every character is a digit. -/
def decode? : List Char → Option Nat
  | [] => none
  | cs => cs.foldlM (fun n c => (value? c).map (36 * n + ·)) 0

end Relata.Text.Base36
