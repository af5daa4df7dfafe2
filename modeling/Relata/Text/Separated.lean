/-! # Texts with separators

Lists are written with a separator between their items.
-/

namespace Relata.Text

def separated (separator : String) : List String → String
  | [] => ""
  | [s] => s
  | s :: rest => s ++ separator ++ separated separator rest

end Relata.Text
