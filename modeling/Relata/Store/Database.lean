import Relata.Sql.Command
import Relata.Store.Access
import Relata.Store.Catalog
import Relata.Store.Refusal
import Relata.Store.Summation

/-! # Databases

A database is its tables and their catalog. A command is carried out as a whole or
refused; a refused command changes nothing.
-/

namespace Relata

structure Database where
  tables : List Table := []
  catalog : Catalog := []
  /-- Whether references are kept. -/
  enforced : Bool := true
  /-- The text of the present moment. -/
  now : String := ""

/-- What a command gives back: rows, or how many rows it changed. -/
structure Answer where
  rows : List Record := []
  count : Nat := 0

namespace Measure

open Text

def isWord (m : Measure) (word : String) : Bool :=
  m.column.any (sameFolded word)

def isDistinct (m : Measure) : Bool :=
  m.isWord "distinct"

def isOfRows (m : Measure) : Bool :=
  m.column.isNone || m.isWord "all" || m.isDistinct

/-- Only rows are counted without an argument; an argument has to mean something. -/
def check (f : Frame) (m : Measure) : Except Refusal Unit :=
  if m.isOfRows then
    if m.fold = .count then .ok () else .error (.wrongArguments m.fold.keyword)
  else
    match f.unknown? m.column.toList with
    | some name => .error (.noColumn name)
    | none => .ok ()

def checkAll (f : Frame) : List Measure → Except Refusal Unit
  | [] => .ok ()
  | m :: ms => do
    m.check f
    checkAll f ms

def present (f : Frame) (rows : List Row) (name : String) : List Scalar :=
  (rows.map fun row => f.scalar row name).filter fun s => !s.isNull

/-- The first of the scalars that no other one is before, by an order. -/
def extreme (before : Scalar → Scalar → Bool) : List Scalar → Scalar
  | [] => .null
  | s :: rest => rest.foldl (fun best t => if before t best then t else best) s

/-- A double as a result; what is not a number is null. -/
def ofReal (x : Binary64) : Scalar :=
  if x.isNaN then .null else .real x

def value (fold : Fold) (cells : List Scalar) : Except Refusal Scalar :=
  match fold with
  | .count => .ok (.integer (Int64.ofNat cells.length))
  | .sum =>
    if cells.isEmpty then .ok .null
    else
      match Total.of cells with
      | .exact n => .ok (.integer (Int64.ofInt n))
      | .rounded _ true => .error .overflow
      | .rounded c false => .ok (ofReal c.total)
  | .avg =>
    if cells.isEmpty then .ok .null
    else .ok (ofReal ((Total.of cells).toReal.div (.ofInt cells.length)))
  | .min => .ok (extreme (fun s t => s.order t == .lt) cells)
  | .max => .ok (extreme (fun s t => s.order t == .gt) cells)

def result (f : Frame) (rows : List Row) (m : Measure) : Except Refusal (String × Value) :=
  if m.isOfRows then .ok (m.label, .integer (Int64.ofNat rows.length))
  else
    (value m.fold (present f rows (m.column.getD ""))).map fun s => (m.label, s.toValue)

def results (f : Frame) (rows : List Row) :
    List Measure → Except Refusal (List (String × Value))
  | [] => .ok []
  | m :: ms => do
    let v ← result f rows m
    let vs ← results f rows ms
    return v :: vs

end Measure

namespace Projection

def measureList : Projection → List Measure
  | measures ms => ms
  | _ => []

def shown (d : Definition) : Projection → List String
  | everything => d.columns.map Column.name
  | columns names => names
  | measures ms => ms.filterMap fun m => if m.isOfRows then none else m.column

end Projection

namespace Frame

def checkNames (f : Frame) (names : List String) : Except Refusal Unit :=
  match f.unknown? names with
  | some name => .error (.noColumn name)
  | none => .ok ()

def checkTested (f : Frame) (cs : List Condition) : Except Refusal Unit :=
  match Condition.unknown? f cs with
  | some name => .error (.noColumn name)
  | none => .ok ()

def checkShown (f : Frame) : Projection → Except Refusal Unit
  | .everything => .ok ()
  | .columns names => f.checkNames names
  | .measures ms => Measure.checkAll f ms

/-- What is the matter with an expression all of whose names mean something: a function
of distinct values of nothing, or a condition on a result. -/
def checkUse (f : Frame) (names : List String) : Except Refusal Unit :=
  if f.measures.any Measure.isDistinct then .error .distinctArguments
  else
    match f.misused? names with
    | some fold => .error (.misused fold.keyword)
    | none => .ok ()

/-- No condition may match a pattern that is too long with any row. -/
def checkPatterns (f : Frame) (cs : List Condition) (rows : List Row) : Except Refusal Unit :=
  if rows.any fun row => Condition.strainsAll f row cs then .error .patternTooLong else .ok ()

def heading (f : Frame) (name : String) : String :=
  match f.meaning? name with
  | some (.column i) => (f.definition.columns[i]?.map Column.name).getD name
  | some .number => f.definition.numberName
  | _ => name

def project (f : Frame) (rows : List Row) : Projection → Except Refusal (List Record)
  | .everything => .ok (rows.map f.definition.record)
  | .columns names =>
    .ok (rows.map fun row => Entries.ofList (names.map fun name =>
      (f.heading name, (f.scalar row name).toValue)))
  | .measures ms => (Measure.results f rows ms).map fun r => [Entries.ofList r]

end Frame

namespace Definition

open Text

def checkGiven (d : Definition) (refuse : String → Refusal) : List String → Except Refusal Unit
  | [] => .ok ()
  | name :: names => if d.holds name then d.checkGiven refuse names else .error (refuse name)

/-- The scalar that a list of cells gives for a column. The first of several counts. -/
def given? (c : Column) (cells : List (String × Scalar)) : Option Scalar :=
  (cells.find? fun e => sameFolded e.1 c.name).map Prod.snd

/-- The scalar that a list of cells gives for the number of a row. The last of several
counts. -/
def givenNumber? (d : Definition) (cells : List (String × Scalar)) : Option Scalar :=
  (cells.reverse.find? fun e => d.isNumber e.1).map Prod.snd

def asNumber (s : Scalar) : Except Refusal Int :=
  match Affinity.integer.store s with
  | .integer n => .ok n.toInt
  | _ => .error .mismatch

/-- The number after the last one, if there is one; else the first that is free. -/
def nextNumber (rows : List Row) : Int :=
  match rows.getLast? with
  | none => 1
  | some last =>
    if Word.holdsSigned (last.number + 1) then last.number + 1
    else
      let numbers := (List.range (rows.length + 1)).map fun (n : Nat) => (n : Int) + 1
      (numbers.find? fun n => rows.all fun row => row.number != n).getD 1

def newNumber (d : Definition) (rows : List Row) (cells : List (String × Scalar)) :
    Except Refusal Int :=
  match d.givenNumber? cells with
  | none => .ok (nextNumber rows)
  | some .null => .ok (nextNumber rows)
  | some s => asNumber s

/-- The row of given cells: each as its column keeps it, the others by default. -/
def newRow (d : Definition) (now : String) (number : Int) (cells : List (String × Scalar)) :
    Row where
  number
  cells := d.columns.map fun c =>
    if d.isKey c.name then .integer (Int64.ofInt number)
    else
      match given? c cells with
      | some s => c.affinity.store s
      | none =>
        match c.default with
        | .scalar s => s
        | .now => .text now

/-- A row with other cells in some columns. The last of several counts. -/
def changedRow (d : Definition) (row : Row) (number : Int) (cells : List (String × Scalar)) :
    Row where
  number
  cells := (d.columns.zip row.cells).map fun (c, old) =>
    if d.isKey c.name then .integer (Int64.ofInt number)
    else
      match given? c cells.reverse with
      | some s => c.affinity.store s
      | none => old

def firstMissing? (d : Definition) (row : Row) : Option String :=
  ((d.columns.zip row.cells).find? fun (c, s) => c.required && s.isNull).map fun (c, _) => c.name

/-- The first column whose value another row has already; the number of the row comes
first. -/
def firstRepeated? (d : Definition) (others : List Row) (row : Row) : Option String :=
  if others.any fun other => other.number == row.number then some d.numberName
  else
    ((d.indexes.filter Index.unique).map Index.column).find? fun column =>
      let s := d.cell row column
      !s.isNull && others.any fun other => (d.cell other column).order s == .eq

/-- The rules of a single row among others, in the order in which they are checked. -/
def checkRow (d : Definition) (others : List Row) (row : Row) : Except Refusal Unit :=
  match d.firstMissing? row with
  | some column => .error (.missing d.name column)
  | none =>
    match d.firstRepeated? others row with
    | some column => .error (.repeated d.name column)
    | none => .ok ()

/-- Rows with one more, in the order of their numbers. -/
def place (rows : List Row) (row : Row) : List Row :=
  let before (other : Row) : Bool := other.number < row.number
  rows.takeWhile before ++ row :: rows.dropWhile before

def changedNumber (d : Definition) (row : Row) (cells : List (String × Scalar)) :
    Except Refusal Int :=
  match d.givenNumber? cells with
  | none => .ok row.number
  | some s => asNumber s

/-- Selected rows are changed one after another, each checked against all others. -/
def changeRows (d : Definition) (selected : Row → Bool) (cells : List (String × Scalar)) :
    List Row → List Row → Nat → Except Refusal (List Row × Nat)
  | done, [], n => .ok (done, n)
  | done, row :: rest, n =>
    if selected row then do
      let number ← d.changedNumber row cells
      let new := d.changedRow row number cells
      d.checkRow (done ++ rest) new
      changeRows d selected cells (done ++ [new]) rest (n + 1)
    else changeRows d selected cells (done ++ [row]) rest n

def inOrder (rows : List Row) : List Row :=
  rows.mergeSort fun a b => a.number ≤ b.number

end Definition

namespace Database

open Text

def table? (db : Database) (name : String) : Option Table :=
  db.tables.find? fun t => sameFolded t.definition.name name

/-- The table of a name, which may be the catalog. -/
def table (db : Database) (name : String) : Except Refusal Table :=
  match (db.table? name).or (db.catalog.table? name) with
  | some t => .ok t
  | none => .error (.noTable name)

def writable (db : Database) (name : String) : Except Refusal Table :=
  match db.table? name, db.catalog.table? name with
  | some t, _ => .ok t
  | none, some t => .error (.readOnly t.definition.name)
  | none, none => .error (.noTable name)

/-- One more table, unless there is one of its name. -/
def define (db : Database) (d : Definition) : Database :=
  if (db.table? d.name).isSome then db
  else { db with tables := db.tables ++ [⟨d, []⟩], catalog := db.catalog.withTable d }

def index (db : Database) (name table column : String) : Except Refusal Database := do
  let t ← db.table table
  if db.catalog.any fun e => sameFolded e.name name then return db
  else
    let d := { t.definition with indexes := ⟨column, false⟩ :: t.definition.indexes }
    return { db with
      tables := db.tables.map fun t =>
        if sameFolded t.definition.name table then { t with definition := d } else t
      catalog := db.catalog.withIndex name table column }

def setRows (db : Database) (name : String) (rows : List Row) : Database :=
  { db with tables := db.tables.map fun t =>
      if sameFolded t.definition.name name then { t with rows } else t }

def dangling (db : Database) (r : Reference) (s : Scalar) : Bool :=
  !s.isNull &&
    match db.table? r.parent with
    | none => true
    | some parent =>
      let s := (parent.definition.affinity r.parentColumn).operand s
      !parent.rows.any fun row => (parent.definition.cell row r.parentColumn).order s == .eq

/-- Whether a row refers to one that is not there, by rules of the given time. -/
def danglingRow (db : Database) (d : Definition) (deferred : Bool) (row : Row) : Bool :=
  d.references.any fun r => r.deferred == deferred && db.dangling r (d.cell row r.column)

def broken (db : Database) (deferred : Bool) : Bool :=
  db.enforced && db.tables.any fun t =>
    t.definition.references.any (·.deferred == deferred) &&
      t.rows.any (db.danglingRow t.definition deferred)

/-- Rows that go with a row that is no longer there are removed, and so on. -/
def cascade (db : Database) : Nat → Database
  | 0 => db
  | fuel + 1 =>
    let stays (t : Table) (row : Row) : Bool :=
      !t.definition.references.any fun r =>
        r.cascade && db.dangling r (t.definition.cell row r.column)
    if db.tables.all fun t => t.rows.all (stays t) then db
    else
      cascade
        { db with tables := db.tables.map fun t => { t with rows := t.rows.filter (stays t) } } fuel

def rowCount (db : Database) : Nat :=
  db.tables.foldl (fun n t => n + t.rows.length) 0

def frame (db : Database) (t : Table) (measures : List Measure := []) : Frame :=
  { definition := t.definition, measures, now := db.now }

def query (db : Database) (projection : Projection) (table : String) (cs : List Condition)
    (order : Order) (page : Page) : Except Refusal (List Record) := do
  let t ← db.table table
  let f := db.frame t projection.measureList
  let tested := Condition.columnsOfAll cs
  f.checkShown projection
  f.checkTested cs
  f.checkNames order.fields
  f.checkUse tested
  f.checkPatterns cs t.rows
  let needed := projection.shown t.definition ++ tested ++ order.fields
  let access := Access.ofQuery f needed cs order page.take
  let rows := order.sort f (access.arrange f (t.rows.filter (Condition.selects f cs)))
  let rows := match projection with
    | .measures _ => rows
    | _ =>
      let rows := rows.drop ((page.skip.map Page.clamp).getD 0)
      match page.take with
      | some n => rows.take (Page.clamp n)
      | none => rows
  f.project rows projection

def insert (db : Database) (table : String) (cells : List (String × Scalar)) :
    Except Refusal Database := do
  let t ← db.writable table
  let d := t.definition
  d.checkGiven (.noSuchField table) (cells.map Prod.fst)
  let number ← d.newNumber t.rows cells
  let row := d.newRow db.now number cells
  d.checkRow t.rows row
  let db := db.setRows table (Definition.place t.rows row)
  if db.enforced && db.danglingRow d false row then .error .brokenReference else .ok db

def newNumber? (db : Database) (table : String) (cells : List (String × Scalar)) :
    Option Int :=
  match db.table? table with
  | some t => (t.definition.newNumber t.rows cells).toOption
  | none => none

def update (db : Database) (table : String) (cells : List (String × Scalar))
    (cs : List Condition) : Except Refusal (Database × Nat) := do
  let t ← db.writable table
  let d := t.definition
  let f := db.frame t
  d.checkGiven .noColumn (cells.map Prod.fst)
  f.checkTested cs
  f.checkPatterns cs t.rows
  let (rows, n) ← d.changeRows (Condition.selects f cs) cells [] t.rows 0
  let db := db.setRows table (Definition.inOrder rows)
  if db.broken false then .error .brokenReference else .ok (db, n)

/-- The selected rows are removed, and those that go with them. -/
def delete (db : Database) (table : String) (cs : List Condition) :
    Except Refusal (Database × Nat) := do
  let t ← db.writable table
  let f := db.frame t
  f.checkTested cs
  f.checkPatterns cs t.rows
  let gone := t.rows.filter (Condition.selects f cs)
  let rest := db.setRows table (t.rows.filter fun row => !Condition.selects f cs row)
  let rest := if db.enforced then rest.cascade db.rowCount else rest
  if rest.broken false then .error .brokenReference else .ok (rest, gone.length)

end Database

end Relata
