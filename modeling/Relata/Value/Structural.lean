import Relata.Json.Basic
import Relata.Query.Fault
import Relata.Value.Basic

/-! # Values and structural data

Structural data is read as values, and values are written as structural data.
-/

namespace Relata

mutual

def Value.ofJson (field : String) : Json → Except Fault Value
  | .null => .ok .null
  | .bool b => .ok (.bool b)
  | .number (.whole n) => .ok (.integer n)
  | .number (.beyond _) => .error (.unbindable field .beyond)
  | .number (.real x) => .ok (.real x)
  | .string s => .ok (.text s)
  | .array items => (Value.ofItems field items).map .array
  | .object members => (Record.ofMembers members).map fun fields => .object (Entries.ofList fields)

def Value.ofItems (field : String) : List Json → Except Fault (List Value)
  | [] => .ok []
  | item :: items => do
    let v ← Value.ofJson field item
    let vs ← Value.ofItems field items
    return v :: vs

def Record.ofMembers : List (String × Json) → Except Fault (List (String × Value))
  | [] => .ok []
  | (name, item) :: members => do
    let v ← Value.ofJson name item
    let fields ← Record.ofMembers members
    return (name, v) :: fields

end

def Record.ofJson : Json → Except Fault Record
  | .object members => (Record.ofMembers members).map Entries.ofList
  | other => .error (.malformed (.notRecord other.kind))

mutual

/-- Instants and dates are written as their texts, bytes as a list of numbers. -/
def Value.toJson : Value → Json
  | .null => .null
  | .bool b => .bool b
  | .integer n => .number (.whole n)
  | .real x => .number (.real x)
  | .text s => .string s
  | .blob bytes => .array (bytes.map fun b => .number (.whole (Int64.ofNat b.toNat)))
  | .timestamp t => .string t.text
  | .date d => .string d.text
  | .array items => .array (Value.toItems items)
  | .object fields => .object (Record.toMembers fields)

def Value.toItems : List Value → List Json
  | [] => []
  | v :: vs => v.toJson :: Value.toItems vs

def Record.toMembers : List (String × Value) → List (String × Json)
  | [] => []
  | (name, v) :: fields => (name, v.toJson) :: Record.toMembers fields

end

def Record.toJson (r : Record) : Json :=
  .object (Record.toMembers r)

end Relata
