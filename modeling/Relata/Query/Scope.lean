import Relata.Query.Filter
import Relata.Query.Order
import Relata.Query.Page
import Relata.Query.Select

/-! # Trees of relations

A query names the relations that are attached to its rows, and gives each a scope:
which related rows, in which order, which page of them for each parent, which of
their fields, and which relations of theirs in turn.
-/

namespace Relata

/-- How a relation is attached. -/
structure Scope where
  filter : Filter := []
  order : Order := []
  page : Page := {}
  select : Option Select := none
  nested : List (String × Scope) := []

instance : Inhabited Scope := ⟨{}⟩

/-- Relations and their scopes, in order. -/
abbrev Include := Entries Scope

namespace Include

mutual

def scopeDepth : Scope → Nat
  | ⟨_, _, _, _, nested⟩ => 1 + depth nested

def depth : List (String × Scope) → Nat
  | [] => 0
  | (_, scope) :: rest => max (scopeDepth scope) (depth rest)

end

/-- A tree with more levels than the limit is refused. -/
def checkDepth (tree : Include) (limit : Nat) : Except Fault Unit :=
  if limit < depth tree then .error (.tooDeep limit) else .ok ()

mutual

/-- The scope of a datum; all but objects leave it unrestricted. -/
def scopeOfJson : Json → Except Fault Scope
  | .object members => scopeOfMembers members
  | _ => .ok {}

def scopeOfMembers (members : List (String × Json)) : Except Fault Scope := do
  let filter ← match Json.member? "where" members with
    | some w => Filter.ofJson w
    | none => .ok []
  let order ← match Json.member? "orderBy" members with
    | some o => Order.ofJson o
    | none => .ok []
  let page ← Page.ofMembers members
  let select ← match Json.member? "select" members with
    | some s => (Select.ofJson s).map some
    | none => .ok none
  let nested ← nestedOfMembers members
  return { filter, order, page, select, nested }

def nestedOfMembers : List (String × Json) → Except Fault (List (String × Scope))
  | [] => .ok []
  | (name, item) :: rest => if name = "include" then ofJson item else nestedOfMembers rest

/-- The tree of an object: true attaches a relation unrestricted, an object with
its scope, false and null not at all. -/
def ofJson : Json → Except Fault (List (String × Scope))
  | .null => .ok []
  | .object members => ofMembers [] members
  | other => .error (.malformed (.notObject "include" other.kind))

def ofMembers (tree : List (String × Scope)) :
    List (String × Json) → Except Fault (List (String × Scope))
  | [] => .ok tree
  | (_, .null) :: rest => ofMembers tree rest
  | (name, .bool b) :: rest => ofMembers (if b then Entries.set tree name {} else tree) rest
  | (name, .object inner) :: rest => do
    let scope ← scopeOfMembers inner
    ofMembers (Entries.set tree name scope) rest
  | (name, other) :: _ =>
    .error (.malformed (.notFlagOrObject ("include." ++ name) other.kind))

end

end Include

end Relata
