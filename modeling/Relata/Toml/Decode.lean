import Relata.Toml.Basic

/-! # Decoding documents

A declaration takes typed values out of a document. A structured entry is a table
whose keys are its fields, or a list of its fields in their order.
-/

namespace Relata.Toml

def asString? : Toml → Option String
  | string s => some s
  | _ => none

def asBool? : Toml → Option Bool
  | boolean b => some b
  | _ => none

def asCount? : Toml → Option Nat
  | integer n => if 0 ≤ n then some n.toNat else none
  | _ => none

def asList? {α : Type} (item? : Toml → Option α) : Toml → Option (List α)
  | array items => items.mapM item?
  | _ => none

/-- What fills the fields of a structured entry. -/
inductive Fields
  | named (entries : List (String × Toml))
  | placed (items : List Toml)

/-- The fields of an entry, if it is one. A date is an entry without any field. -/
def fields? : Toml → Option Fields
  | table entries => some (.named entries)
  | date => some (.named [])
  | array items => some (.placed items)
  | _ => none

/-- The field of a name, which is also that of a place. -/
def Fields.get? (fs : Fields) (place : Nat) (name : String) : Option Toml :=
  match fs with
  | named entries => entries.lookup name
  | placed items => items[place]?

/-- A field that may be missing: none inside if it is, and failure if it does not decode. -/
def Fields.optional? {α : Type} (fs : Fields) (place : Nat) (name : String)
    (decode? : Toml → Option α) : Option (Option α) :=
  match fs.get? place name with
  | none => some none
  | some v => (decode? v).map some

def Fields.withDefault? {α : Type} (fs : Fields) (place : Nat) (name : String)
    (decode? : Toml → Option α) (a : α) : Option α :=
  (fs.optional? place name decode?).map (·.getD a)

def Fields.required? {α : Type} (fs : Fields) (place : Nat) (name : String)
    (decode? : Toml → Option α) : Option α :=
  (fs.get? place name).bind decode?

/-- A word of a fixed list: a string, or the key of a table whose value is empty. -/
def asWord? {α : Type} (words : List (String × α)) : Toml → Option α
  | string s => words.lookup s
  | table [(s, table [])] => words.lookup s
  | table [(s, array [])] => words.lookup s
  | _ => none

end Relata.Toml
