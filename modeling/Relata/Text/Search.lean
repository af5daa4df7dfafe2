/-! # Finding a text in another

The first place where a text occurs, and the pieces around its occurrences.
-/

namespace Relata.Text

/-- What stands before and after the first occurrence of a text that is not empty. -/
def cut? (pattern : List Char) : List Char → Option (List Char × List Char)
  | [] => none
  | c :: cs =>
    if pattern.isPrefixOf (c :: cs) then some ([], (c :: cs).drop pattern.length)
    else (cut? pattern cs).map fun (before, after) => (c :: before, after)

def occurs (pattern text : String) : Bool :=
  (cut? pattern.toList text.toList).isSome

/-- The piece between the first and the second occurrence of a text, or to the end. -/
def secondPiece? (pattern text : String) : Option String :=
  (cut? pattern.toList text.toList).map fun (_, after) =>
    match cut? pattern.toList after with
    | some (piece, _) => String.ofList piece
    | none => String.ofList after

end Relata.Text
