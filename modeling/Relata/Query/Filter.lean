import Relata.Json.Basic
import Relata.Query.Fault
import Relata.Query.Order
import Relata.Value.Scalar
import Relata.Value.Structural

/-! # Filters

A filter is a conjunction of nodes: tests of fields, and groups of filters that
hold together or of which one holds.
-/

namespace Relata

inductive Comparison
  | equal | different | less | atMost | greater | atLeast
  deriving DecidableEq

inductive Placement
  | anywhere | atStart | atEnd
  deriving DecidableEq

/-- What is asked of a field. -/
inductive Test
  | compare (how : Comparison) (operand : Value)
  | among (operands : List Value)
  | outside (operands : List Value)
  | like (place : Placement) (needle : Value)
  | isNull

inductive Connective
  | and | or
  deriving DecidableEq

/-- A test of a field, or a group of filters. -/
inductive Node
  | test (field : String) (t : Test)
  | group (c : Connective) (children : List (List Node))

/-- Nodes that all have to hold. -/
abbrev Filter := List Node

namespace Filter

def test (f : Filter) (field : String) (t : Test) : Filter :=
  f ++ [.test field t]

def eq (f : Filter) (field : String) (v : Value) : Filter :=
  f.test field (.compare .equal v)

def group (f : Filter) (c : Connective) (children : List Filter) : Filter :=
  f ++ [.group c children]

def merge (f g : Filter) : Filter :=
  f ++ g

/-- The values that the filter itself, outside its groups, requires of fields. -/
def equalities (f : Filter) : List (String × Value) :=
  f.filterMap fun
    | .test field (.compare .equal v) => if v.isNull then none else some (field, v)
    | _ => none

mutual

def fields : List Node → List String
  | [] => []
  | .test field _ :: nodes => field :: fields nodes
  | .group _ children :: nodes => fieldsOfAll children ++ fields nodes

def fieldsOfAll : List (List Node) → List String
  | [] => []
  | child :: children => fields child ++ fieldsOfAll children

end

def operands (operator field : String) : Json → Except Fault (List Value)
  | .array items => Value.ofItems field items
  | other => .error (.malformed (.notList operator field other.kind))

/-- The test of an operator and its operand; none for a word that is no operator,
whatever its operand is. -/
def testOfJson? (field operator : String) (operand : Json) : Except Fault (Option Test) :=
  let value := Value.ofJson field operand
  match operator with
  | "equals" => value.map fun v => some (.compare .equal v)
  | "not" => value.map fun v => some (.compare .different v)
  | "in" => (operands operator field operand).map fun vs => some (.among vs)
  | "notIn" => (operands operator field operand).map fun vs => some (.outside vs)
  | "lt" => value.map fun v => some (.compare .less v)
  | "lte" => value.map fun v => some (.compare .atMost v)
  | "gt" => value.map fun v => some (.compare .greater v)
  | "gte" => value.map fun v => some (.compare .atLeast v)
  | "contains" => value.map fun v => some (.like .anywhere v)
  | "startsWith" => value.map fun v => some (.like .atStart v)
  | "endsWith" => value.map fun v => some (.like .atEnd v)
  | _ => .ok none

def testsOfJson (field : String) : List (String × Json) → Except Fault Filter
  | [] => .ok []
  | (operator, operand) :: rest => do
    let t ← testOfJson? field operator operand
    let ts ← testsOfJson field rest
    return (t.map (Node.test field)).toList ++ ts

/-- What structural data asks of a field: null, a value, or operators. -/
def ofField (field : String) : Json → Except Fault Filter
  | .null => .ok [.test field .isNull]
  | .array _ => .error (.unbindable field (.kind .array))
  | .object operators => testsOfJson field operators
  | scalar => (Value.ofJson field scalar).map fun v => [.test field (.compare .equal v)]

def connective? (name : String) : Option Connective :=
  if name = "AND" then some .and else if name = "OR" then some .or else none

mutual

/-- The filter of an object; null is the filter without nodes. -/
def ofJson : Json → Except Fault Filter
  | .null => .ok []
  | .object members => ofMembers members
  | other => .error (.malformed (.notObject "where" other.kind))

def ofMembers : List (String × Json) → Except Fault Filter
  | [] => .ok []
  | (name, item) :: members =>
    match connective? name with
    | some c => do
      let children ← childrenOfJson item
      let rest ← ofMembers members
      return .group c children :: rest
    | none => do
      let tests ← ofField name item
      let rest ← ofMembers members
      return tests ++ rest

def childrenOfJson : Json → Except Fault (List Filter)
  | .array items => ofItems items
  | .null => .ok [[]]
  | .object members => (ofMembers members).map fun f => [f]
  | other => .error (.malformed (.notObject "where" other.kind))

def ofItems : List Json → Except Fault (List Filter)
  | [] => .ok []
  | item :: items => do
    let f ← ofJson item
    let fs ← ofItems items
    return f :: fs

end

end Filter

end Relata
