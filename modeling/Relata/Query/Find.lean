import Relata.Query.Scope

/-! # What is looked for

The arguments of a reading: which rows, in which order, which page of them, which of
their fields, and with which relations attached.
-/

namespace Relata

structure Find where
  filter : Filter := []
  select : Option Select := none
  attach : Include := []
  order : Order := []
  page : Page := {}

namespace Find

def byKey (id : Value) : Find :=
  { filter := Filter.eq [] Record.key id }

/-- The arguments of an object; null asks for every row. -/
def ofJson : Json → Except Fault Find
  | .null => .ok {}
  | .object members => do
    let page ← Page.ofMembers members
    let filter ← match Json.member? "where" members with
      | some w => Filter.ofJson w
      | none => .ok []
    let select ← match Json.member? "select" members with
      | some s => (Select.ofJson s).map some
      | none => .ok none
    let attach ← match Json.member? "include" members with
      | some i => Include.ofJson i
      | none => .ok []
    let order ← match Json.member? "orderBy" members with
      | some o => Order.ofJson o
      | none => .ok []
    return { filter, select, attach, order, page }
  | other => .error (.malformed (.notObject "query arguments" other.kind))

end Find

end Relata
