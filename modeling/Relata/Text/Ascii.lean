/-! # Letters and digits of ASCII

The character classes that names, numbers and keywords are made of, and the
comparison of texts that ignores the case of ASCII letters.
-/

namespace Relata.Text

def isLetter (c : Char) : Bool :=
  ('a' ≤ c && c ≤ 'z') || ('A' ≤ c && c ≤ 'Z')

def isDigit (c : Char) : Bool :=
  '0' ≤ c && c ≤ '9'

def digitValue (c : Char) : Nat :=
  c.toNat - '0'.toNat

def digitChar (n : Nat) : Char :=
  Char.ofNat ('0'.toNat + n)

/-- An ASCII capital becomes small; every other character stays. -/
def foldCase (c : Char) : Char :=
  if 'A' ≤ c && c ≤ 'Z' then Char.ofNat (c.toNat + 32) else c

/-- Texts that differ at most in the case of ASCII letters. The shortest comparisons come
first, since nearly all texts are told apart by them. -/
def sameFolded (s t : String) : Bool :=
  s == t || (s.length == t.length && s.toList.map foldCase == t.toList.map foldCase)

theorem sameFolded_iff {s t : String} :
    sameFolded s t = true ↔ s.toList.map foldCase = t.toList.map foldCase := by
  constructor
  · intro h
    rcases (Bool.or_eq_true _ _).mp h with h | h
    · rw [beq_iff_eq.mp h]
    · exact beq_iff_eq.mp ((Bool.and_eq_true _ _).mp h).2
  · intro h
    have hl : s.length = t.length := by
      simpa [String.length_toList] using congrArg List.length h
    simp [sameFolded, h, hl]

/-- The value of a run of digits, read from the left. -/
def valueOfDigits (cs : List Char) : Nat :=
  cs.foldl (fun n c => 10 * n + digitValue c) 0

def decimal (n : Nat) : List Char :=
  if n < 10 then [digitChar n] else decimal (n / 10) ++ [digitChar (n % 10)]

/-- The decimal spelling, padded with zeros on the left to at least `width` characters. -/
def padded (width n : Nat) : List Char :=
  let digits := decimal n
  List.replicate (width - digits.length) '0' ++ digits

def signed (n : Int) : List Char :=
  if n < 0 then '-' :: decimal n.natAbs else decimal n.natAbs

/-- The number spelled by one digit or more, and by nothing else. -/
def natural? (cs : List Char) : Option Nat :=
  if !cs.isEmpty && cs.all isDigit then some (valueOfDigits cs) else none

def integer? : List Char → Option Int
  | '-' :: cs => (natural? cs).map fun n => -(n : Int)
  | '+' :: cs => (natural? cs).map Int.ofNat
  | cs => (natural? cs).map Int.ofNat

def unsigned? : List Char → Option Nat
  | '+' :: cs => natural? cs
  | cs => natural? cs

end Relata.Text
