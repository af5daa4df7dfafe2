import Relata.Text.Ascii

/-! # Plain names

Tables and columns are called by plain names: a letter or an underscore, then
letters, digits and underscores. A plain name needs no quoting, so it can stand
in a statement as it is.
-/

namespace Relata.Text

def startsName (c : Char) : Bool :=
  isLetter c || c == '_'

def continuesName (c : Char) : Bool :=
  isLetter c || isDigit c || c == '_'

/-- The texts that are plain names. -/
inductive PlainName : List Char → Prop
  | intro {c : Char} {cs : List Char} (head : startsName c = true)
      (tail : ∀ d ∈ cs, continuesName d = true) : PlainName (c :: cs)

def isPlainName : List Char → Bool
  | [] => false
  | c :: cs => startsName c && cs.all continuesName

theorem isPlainName_iff {cs : List Char} : isPlainName cs = true ↔ PlainName cs := by
  cases cs with
  | nil => exact ⟨(fun h => nomatch h), (fun h => nomatch h)⟩
  | cons c cs =>
    simp only [isPlainName, Bool.and_eq_true, List.all_eq_true]
    exact ⟨fun h => ⟨h.1, h.2⟩, fun ⟨h, t⟩ => ⟨h, t⟩⟩

end Relata.Text
