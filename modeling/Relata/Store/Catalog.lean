import Relata.Store.Table
import Relata.Text.Separated

/-! # Catalogs

A store tells of its own tables and indexes in a table that can be read like any other,
but not be written.
-/

namespace Relata

def Default.words : Default → List String
  | .now => ["DEFAULT (strftime('%Y-%m-%dT%H:%M:%fZ', 'now'))"]
  | .scalar (.integer n) => ["DEFAULT " ++ Numeral.ofInteger n]
  | .scalar (.text s) => ["DEFAULT '" ++ s ++ "'"]
  | .scalar _ => []

def Reference.words (r : Reference) : List String :=
  ["REFERENCES " ++ r.parent ++ "(" ++ r.parentColumn ++ ")"] ++
    (if r.cascade then ["ON DELETE CASCADE"] else []) ++
    (if r.deferred then ["DEFERRABLE INITIALLY DEFERRED"] else [])

namespace Definition

open Text (sameFolded separated)

/-- The column that identifies the rows: the one that stands for their numbers, or that
of the first index. -/
def primary? (d : Definition) : Option String :=
  d.rowKey.or ((d.indexes.filter Index.unique).getLast?.map Index.column)

def columnText (d : Definition) (c : Column) : String :=
  let isPrimary := d.primary?.any (sameFolded c.name)
  let isUnique := d.indexes.any fun i => i.unique && sameFolded i.column c.name
  separated " " <| [c.name] ++
    (match c.affinity with
      | .text => ["TEXT"]
      | .integer => ["INTEGER"]
      | .real => ["REAL"]
      | .none => []) ++
    (if isPrimary then ["PRIMARY KEY"] else []) ++
    (if c.required then ["NOT NULL"] else []) ++
    (if isUnique && !isPrimary then ["UNIQUE"] else []) ++
    c.default.words ++
    (d.references.filter fun r => sameFolded r.column c.name).flatMap Reference.words

def text (d : Definition) : String :=
  let columns := d.columns.map d.columnText
  "CREATE TABLE " ++ d.name ++ " (" ++
    if d.spread then
      "\n        " ++ separated ",\n        " columns ++ "\n    )"
    else separated ", " columns ++ ")"

end Definition

structure CatalogEntry where
  /-- Whether it is a table. -/
  isTable : Bool
  name : String
  /-- The table that it belongs to. -/
  table : String
  /-- How it was declared; none for the index of a rule of its table. -/
  declared : Option String

/-- In the order of the declarations. -/
abbrev Catalog := List CatalogEntry

namespace Catalog

open Text

/-- The catalog with one more table, and an index for each of its rules. -/
def withTable (c : Catalog) (d : Definition) : Catalog :=
  c ++ ⟨true, d.name, d.name, some d.text⟩ ::
    (d.indexes.filter Index.unique).mapIdx fun i _ =>
      ⟨false, "sqlite_autoindex_" ++ d.name ++ "_" ++ (i + 1).repr, d.name, none⟩

def withIndex (c : Catalog) (name table column : String) : Catalog :=
  c ++ [⟨false, name, table,
    some ("CREATE INDEX " ++ name ++ " ON " ++ table ++ "(" ++ column ++ ")")⟩]

def definition (name : String) : Definition where
  name
  columns := [⟨"type", .text, false, .scalar .null⟩, ⟨"name", .text, false, .scalar .null⟩,
    ⟨"tbl_name", .text, false, .scalar .null⟩, ⟨"rootpage", .integer, false, .scalar .null⟩,
    ⟨"sql", .text, false, .scalar .null⟩]

/-- The rows of the catalog. What it tells of is kept on pages, of which the first one is
its own. -/
def rows (c : Catalog) : List Row :=
  c.mapIdx fun i e =>
    { number := i + 1
      cells := [.text (if e.isTable then "table" else "index"), .text e.name, .text e.table,
        .integer (Int64.ofNat (i + 2)), (e.declared.map Scalar.text).getD .null] }

/-- The name under which the catalog is spoken of, whatever it is called. -/
def mainName : String := "sqlite_master"

/-- The catalog of what lasts no longer than its connection, which is empty. -/
def passingName : String := "sqlite_temp_master"

def table? (c : Catalog) (name : String) : Option Table :=
  if sameFolded name mainName || sameFolded name "sqlite_schema" then
    some ⟨definition mainName, c.rows⟩
  else if sameFolded name passingName || sameFolded name "sqlite_temp_schema" then
    some ⟨definition passingName, []⟩
  else none

end Catalog

end Relata
