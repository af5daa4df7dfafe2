import Relata.Text.Base36

/-! # Generated identities

The identity of a new row is its time in milliseconds and a suffix that tells rows
of one moment apart, both in base thirty-six, so that identities of later moments
come later in the order of texts.
-/

namespace Relata.Text.Identity

def suffixLength : Nat := 8

/-- The last characters of the spelling of a number, padded with zeros. -/
def suffix (n : Nat) : List Char :=
  let digits := Base36.encode (n % Nat.pow 36 suffixLength)
  List.replicate (suffixLength - digits.length) '0' ++ digits

/-- The identity of a moment and a number that stands for chance. -/
def make (millis chance : Nat) : String :=
  String.ofList (Base36.encode millis ++ suffix chance)

end Relata.Text.Identity
