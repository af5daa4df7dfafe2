import Relata.Json.Basic
import Relata.Query.Fault
import Relata.Value.Basic

/-! # Selections of fields

A selection lists the fields that stay in a record. Under a field with a selection
of its own, the attached record, or each attached record of a list, is narrowed in
turn; everything else under a listed field stays as it is.
-/

namespace Relata

/-- The fields that stay, each plain or with a selection of its own. -/
structure Select where
  fields : List (String × Option Select)
  deriving Inhabited

namespace Select

def empty : Select := ⟨[]⟩

def isEmpty (s : Select) : Bool :=
  s.fields.isEmpty

def field (s : Select) (name : String) : Select :=
  ⟨Entries.set s.fields name none⟩

def nested (s : Select) (name : String) (inner : Select) : Select :=
  ⟨Entries.set s.fields name (some inner)⟩

def get? (s : Select) (name : String) : Option (Option Select) :=
  Entries.get? s.fields name

mutual

/-- The record without the fields that are not listed, and the rest narrowed. -/
def apply (s : Select) : List (String × Value) → List (String × Value)
  | [] => []
  | (name, v) :: rest =>
    match s.get? name with
    | none => apply s rest
    | some none => (name, v) :: apply s rest
    | some (some inner) => (name, narrow inner v) :: apply s rest

/-- An attached record, or each one of an attached list, is narrowed. -/
def narrow (s : Select) : Value → Value
  | .object fields => .object (apply s fields)
  | .array items => .array (narrowItems s items)
  | v => v

def narrowItems (s : Select) : List Value → List Value
  | [] => []
  | .object fields :: rest => .object (apply s fields) :: narrowItems s rest
  | v :: rest => v :: narrowItems s rest

end

def applyAll (s : Select) (records : List Record) : List Record :=
  records.map (apply s)

def narrowAll (s : Option Select) (records : List Record) : List Record :=
  match s with
  | some s => s.applyAll records
  | none => records

mutual

/-- The selection of an object: true lists a field, an object gives it a selection
of its own, false and null leave it out. -/
def ofJson : Json → Except Fault Select
  | .object members => ofMembers empty members
  | other => .error (.malformed (.notObject "select" other.kind))

def ofMembers (s : Select) : List (String × Json) → Except Fault Select
  | [] => .ok s
  | (_, .null) :: rest => ofMembers s rest
  | (name, .bool b) :: rest => ofMembers (if b then s.field name else s) rest
  | (name, .object inner) :: rest => do
    let t ← match wrapped? inner with
      | some t => t
      | none => ofMembers empty inner
    ofMembers (s.nested name t) rest
  | (name, other) :: _ =>
    .error (.malformed (.notFlagOrObject ("select." ++ name) other.kind))

/-- The selection of a member `select`, if there is one and it is an object: a
relation may be narrowed by its scope instead of by its fields. -/
def wrapped? : List (String × Json) → Option (Except Fault Select)
  | [] => none
  | (name, .object inner) :: rest =>
    if name = "select" then some (ofMembers empty inner) else wrapped? rest
  | _ :: rest => wrapped? rest

end

end Select

end Relata
