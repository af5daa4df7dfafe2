/-! # Configuration documents

A document is a table of named values. Of numbers with fractions and of dates only
the class is kept, since no declaration uses them.
-/

namespace Relata

inductive Toml
  | string (s : String)
  | integer (n : Int)
  | float
  | boolean (b : Bool)
  | date
  | array (items : List Toml)
  | table (entries : List (String × Toml))

end Relata
