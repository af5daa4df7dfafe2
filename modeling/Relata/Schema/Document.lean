import Relata.Schema.Declaration
import Relata.Toml.Decode
import Relata.Toml.Reader

/-! # Schemas as documents

A document declares tables under `tables` and relations under `relations`. Keys
that mean nothing here are passed over.
-/

namespace Relata.Declaration

open Toml

def tableOf? (entry : Toml) : Option (String × Option (List String)) := do
  let fs ← fields? entry
  let name ← fs.required? 0 "name" asString?
  let columns ← match fs with
    | .named _ => fs.optional? 1 "columns" (asList? asString?)
    | .placed _ => (fs.required? 1 "columns" (asList? asString?)).map some
  return (name, columns)

def cardinalities : List (String × Cardinality) :=
  [("one_to_many", .oneToMany), ("many_to_one", .manyToOne)]

/-- A relation of a document. Without a local key it goes by the identity of rows. -/
def relationOf? (entry : Toml) : Option (String × String × Relation) := do
  let fs ← fields? entry
  let table ← fs.required? 0 "table" asString?
  let field ← fs.required? 1 "field" asString?
  let cardinality ← fs.required? 2 "kind" (asWord? cardinalities)
  let target ← fs.required? 3 "target" asString?
  let foreignKey ← fs.required? 4 "foreign_key" asString?
  let localKey ← fs.withDefault? 5 "local_key" asString? Record.key
  return (table, field, ⟨cardinality, target, foreignKey, localKey⟩)

/-- The declaration of a document; tables without columns stay undeclared. -/
def ofText? (text : String) : Option Declaration := do
  let fs := Fields.named (← Toml.read? text)
  let tables ← fs.withDefault? 0 "tables" (asList? tableOf?) []
  let relations ← fs.withDefault? 1 "relations" (asList? relationOf?) []
  return { tables := tables.filterMap fun (name, columns) => columns.map (name, ·), relations }

end Relata.Declaration

namespace Relata.Schema

def ofText (text : String) : Except Fault Schema :=
  match Declaration.ofText? text with
  | some d => d.build
  | none => .error (.inconsistent .unreadable)

end Relata.Schema
