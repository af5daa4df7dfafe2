import Relata.Model.Related
import Relata.Proofs.Query.Meaning
import Relata.Script.Site

/-! # Relations of one parent

What a tree of relations attaches to a parent, told for this parent alone: each registered
relation gets all rows of its target that belong to the parent and meet the filter of the
scope, in its order, with their own relations attached, cut to its page and narrowed.
-/

namespace Relata

namespace Database

def definitionOf (db : Database) (table : String) : Definition :=
  match db.table table with
  | .ok t => t.definition
  | .error _ => { name := table, columns := [] }

def rowsOf (db : Database) (table : String) : List Row :=
  match db.table table with
  | .ok t => t.rows
  | .error _ => []

def frameOf (db : Database) (table : String) : Frame :=
  { definition := db.definitionOf table, now := db.now }

end Database

/-- A name that is spelled like the column that it names, and like no other. -/
def Definition.Spells (d : Definition) (name : String) : Prop :=
  ∃ i, d.index? name = some i ∧ ∀ j, (d.columns.map Column.name)[j]? = some name ↔ j = i

/-- Whether a row has the key of a parent, as the store compares them. -/
def Relation.belongs (f : Frame) (r : Relation) (parent : Record) (row : Row) : Bool :=
  match Entries.get? parent r.parentKey with
  | some v => (Test.compareTruth f row r.targetKey .equal v).holds
  | none => false

/-- Whether a row belongs to a parent and meets a filter. -/
def Relation.isRelated (f : Frame) (r : Relation) (filter : Filter) (parent : Record)
    (row : Row) : Bool :=
  r.belongs f parent row && (Filter.truth f row filter).holds

/-- The rows of all tables, in the order in which each table is scanned. -/
structure Scans (db : Database) where
  rows : String → List Row
  perm : ∀ table, (rows table).Perm (db.rowsOf table)

namespace Scans

variable {db : Database} (w : Scans db) (schema : Schema)

def select (table : String) (cs : List Condition) (order : Order) : List Record :=
  let f := db.frameOf table
  (order.sort f ((w.rows table).filter (Condition.selects f cs))).map f.definition.record

mutual

/-- The fields that a tree of relations adds to a parent, each with its value. -/
def attachments (table : String) (parent : Record) : List (String × Scope) → List (String × Value)
  | [] => []
  | (field, scope) :: rest =>
    match schema.relation? table field with
    | none => attachments table parent rest
    | some r => (field, attachment r parent scope) :: attachments table parent rest

/-- What one relation attaches to a parent: a list of rows, or the first row if there is one. -/
def attachment (r : Relation) (parent : Record) : Scope → Value
  | ⟨filter, order, page, select, nested⟩ =>
    let f := db.frameOf r.target
    let related := order.sort f ((w.rows r.target).filter (r.isRelated f filter parent))
    let rows := related.map fun row =>
      let own := f.definition.record row
      Entries.extend own (attachments r.target own nested)
    match r.cardinality with
    | .oneToMany => .array ((Select.narrowAll select (page.slice rows)).map .object)
    | .manyToOne => ((Select.narrowAll select rows).head?.map .object).getD .null

end

def complete (table : String) (tree : Include) (parent : Record) : Record :=
  Entries.extend parent (w.attachments schema table parent tree)

/-- The records that get relations attached when a tree is attached to a batch, each with
its table and with the tree of its relations. -/
inductive Resolved (table : String) (tree : Include) (batch : List Record) :
    String → Include → Record → Prop
  | parent {p : Record} (mem : p ∈ batch) : Resolved table tree batch table tree p
  | related {table' : String} {tree' : Include} {p : Record} {field : String} {scope : Scope}
      {r : Relation} {row : Row} (above : Resolved table tree batch table' tree' p)
      (mem : (field, scope) ∈ tree') (known : schema.relation? table' field = some r)
      (hrow : row ∈ w.rows r.target)
      (isRelated : r.isRelated (db.frameOf r.target) scope.filter p row = true) :
      Resolved table tree batch r.target scope.nested ((db.definitionOf r.target).record row)

/-- A relation that is attached to a record on the way, under a field and with a scope. -/
structure Attached (table : String) (tree : Include) (batch : List Record) (table' : String)
    (tree' : Include) (p : Record) (field : String) (scope : Scope) (r : Relation) : Prop where
  resolved : w.Resolved schema table tree batch table' tree' p
  mem : (field, scope) ∈ tree'
  known : schema.relation? table' field = some r

/-- What is taken for granted of the keys, of the names, and of the store, where a tree is
attached to a batch. -/
structure Granted (c : Connection) (w : Scans c.database) (schema : Schema) (table : String)
    (tree : Include) (batch : List Record) : Prop where
  /-- A key of a parent is that of a row exactly if the store takes the two for equal. -/
  keys {table' : String} {tree' : Include} {p : Record} {field : String} {scope : Scope}
    {r : Relation} {v : Value} {k : Key} {row : Row} :
    w.Attached schema table tree batch table' tree' p field scope r →
    Entries.get? p r.parentKey = some v → v.key? = some k → row ∈ w.rows r.target →
    (((c.database.definitionOf r.target).cell row r.targetKey).toValue.key? = some k ↔
      (Test.compareTruth (c.database.frameOf r.target) row r.targetKey .equal v).holds = true)
  /-- No attached field is called like the key of a parent, -/
  apart {table' : String} {tree' : Include} {p : Record} {field field' : String}
    {scope scope' : Scope} {r r' : Relation} :
    w.Attached schema table tree batch table' tree' p field scope r →
    w.Attached schema table tree batch table' tree' p field' scope' r' →
    field ≠ r'.parentKey
  /-- nor like the key of the rows that it is attached to. -/
  apartBelow {table' : String} {tree' : Include} {p : Record} {field field' : String}
    {scope scope' : Scope} {r r' : Relation} :
    w.Attached schema table tree batch table' tree' p field scope r →
    (field', scope') ∈ scope.nested → schema.relation? r.target field' = some r' →
    field' ≠ r.targetKey
  /-- A key is spelled as the column is that it names. -/
  spelled {table' : String} {tree' : Include} {p : Record} {field : String} {scope : Scope}
    {r : Relation} :
    w.Attached schema table tree batch table' tree' p field scope r →
    (c.database.definitionOf r.target).Spells r.targetKey
  /-- The store selects the rows of its scan, and then sorts them. -/
  scans {table' : String} {tree' : Include} {p : Record} {field : String} {scope : Scope}
    {r : Relation} {vs : List Value} {cs : List Condition} {a : Answer} :
    w.Attached schema table tree batch table' tree' p field scope r → vs ≠ [] →
    Filter.conditions (Filter.merge [.test r.targetKey (.among vs)] scope.filter) = .ok cs →
    (c.execute (.query .everything r.target cs scope.order {})).1 = .ok a →
    a.rows = w.select r.target cs scope.order

end Scans

end Relata
