import Relata.Model.Basic
import Relata.Value.Key

/-! # Related rows

Relations are attached to all rows of a reading at once: one query fetches the
related rows of all parents, and each parent gets those whose key is its own. The
relations of the related rows are attached before the rows are dealt out.
-/

namespace Relata

namespace Record

def keyOf? (r : Record) (field : String) : Option Key :=
  (Entries.get? r field).bind Value.key?

/-- The values of a field with different keys, each where its key first occurs. -/
def distinctValues (field : String) : List Key → List Record → List Value
  | _, [] => []
  | seen, r :: rest =>
    match Entries.get? r field, r.keyOf? field with
    | some v, some k =>
      if k ∈ seen then distinctValues field seen rest
      else v :: distinctValues field (k :: seen) rest
    | _, _ => distinctValues field seen rest

end Record

namespace Relation

def group (r : Relation) (rows : List Record) (parent : Record) : List Record :=
  match parent.keyOf? r.parentKey with
  | some k => rows.filter fun row => row.keyOf? r.targetKey = some k
  | none => []

/-- What is attached to a parent: a page of its related rows, or the first of them. -/
def attached (r : Relation) (page : Page) (select : Option Select) (group : List Record) : Value :=
  match r.cardinality with
  | .oneToMany => .array ((Select.narrowAll select (page.slice group)).map .object)
  | .manyToOne =>
    match Select.narrowAll select (group.take 1) with
    | row :: _ => .object row
    | [] => .null

end Relation

namespace Model

mutual

/-- Attaches a tree of relations to rows. Relations that the schema does not know are
passed over. -/
def attach (m : Model) : List (String × Scope) → List Record → Op (List Record)
  | [], rows => return rows
  | (field, scope) :: rest, rows =>
    match m.schema.relation? m.table field with
    | none => attach m rest rows
    | some r => do
      let rows ← attachScope m field r scope rows
      attach m rest rows

/-- Attaches one relation to rows. Without any key there is nothing to fetch. -/
def attachScope (m : Model) (field : String) (r : Relation) :
    Scope → List Record → Op (List Record)
  | ⟨filter, order, page, select, nested⟩, parents => do
    let target := m.related r.target
    let keys := Record.distinctValues r.parentKey [] parents
    let rows ←
      if keys.isEmpty then pure []
      else do
        let find : Find := {
          filter := Filter.merge [.test r.targetKey (.among keys)] filter
          order
          attach := nested }
        target.checkFind find
        let rows ← target.select find.filter find.order find.page
        attach target nested rows
    return parents.map fun parent =>
      Entries.set parent field (r.attached page select (r.group rows parent))

end

end Model

end Relata
