import Relata.Json.Basic
import Relata.Query.Fault
import Relata.Text.Separated

/-! # Orders of rows

Rows are sorted by the first field of an order, then by the second, and so on. The
order of the members of structural data is the order of the fields.
-/

namespace Relata

open Text

inductive Direction
  | ascending
  | descending
  deriving DecidableEq

namespace Direction

def keyword : Direction → String
  | ascending => "ASC"
  | descending => "DESC"

def ofText (s : String) : Except Fault Direction :=
  if sameFolded s "asc" then .ok ascending
  else if sameFolded s "desc" then .ok descending
  else .error (.malformed (.unknownDirection s))

end Direction

/-- Fields and the directions in which they are sorted. -/
abbrev Order := List (String × Direction)

namespace Order

def fields (order : Order) : List String :=
  order.map Prod.fst

/-- The clause that sorts a selection; none for an order without fields. -/
def clause (order : Order) : String :=
  if order.isEmpty then ""
  else "ORDER BY " ++ separated ", " (order.map fun (field, d) => field ++ " " ++ d.keyword)

def checked : Order → Except Fault Order
  | [] => .ok []
  | (field, d) :: rest => do
    let field ← checkedName field
    let rest ← checked rest
    return (field, d) :: rest

def ofMembers : List (String × Json) → Except Fault Order
  | [] => .ok []
  | (field, .string s) :: members => do
    let d ← Direction.ofText s
    let rest ← ofMembers members
    return (field, d) :: rest
  | (field, _) :: _ => .error (.malformed (.directionNotText field))

def ofItems : List Json → Except Fault Order
  | [] => .ok []
  | .object members :: items => do
    let first ← ofMembers members
    let rest ← ofItems items
    return first ++ rest
  | _ :: _ => .error (.malformed .orderEntry)

/-- The order of an object or of a list of objects; null is no order. -/
def ofJson : Json → Except Fault Order
  | .null => .ok []
  | .object members => ofMembers members
  | .array items => ofItems items
  | other => .error (.malformed (.notOrder other.kind))

end Order

end Relata
