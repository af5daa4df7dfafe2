import Relata.Query.Condition
import Relata.Query.Aggregate
import Relata.Store.Comparison
import Relata.Store.Pattern
import Relata.Store.Table

/-! # Names in expressions

An expression speaks of the columns of a row, of its number, and of a few constants. A
frame says what a name means; conditions are evaluated in it, and rows are sorted.
-/

namespace Relata

/-- Where names have their meaning. -/
structure Frame where
  definition : Definition
  /-- The results that a selection asks for, whose labels are names too. -/
  measures : List Measure := []
  /-- The text of the present moment. -/
  now : String := ""

inductive Meaning
  /-- The column at a place. -/
  | column (place : Nat)
  /-- The number of the row. -/
  | number
  | constant (s : Scalar)

namespace Frame

open Text

/-- The constants that are words of the language. In an expression they are no columns, even if
there are columns of these names. -/
def constant? (now : String) (name : String) : Option Scalar :=
  let date := now.toList.take 10
  let time := (now.toList.drop 11).take 8
  if sameFolded name "null" then some .null
  else if sameFolded name "current_date" then some (.text (String.ofList date))
  else if sameFolded name "current_time" then some (.text (String.ofList time))
  else if sameFolded name "current_timestamp" then
    some (.text (String.ofList (date ++ ' ' :: time)))
  else none

def truth? (name : String) : Option Scalar :=
  if sameFolded name "true" then some (.integer 1)
  else if sameFolded name "false" then some (.integer 0)
  else none

/-- The meaning of a name: the words of the language come first, then the columns and the number
of the row, then the words of truth. -/
def meaning? (f : Frame) (name : String) : Option Meaning :=
  match constant? f.now name with
  | some s => some (.constant s)
  | none =>
    match f.definition.index? name with
    | some i => some (.column i)
    | none =>
      if f.definition.isNumber name then some .number
      else (truth? name).map .constant

def scalar (f : Frame) (row : Row) (name : String) : Scalar :=
  match f.meaning? name with
  | some (.column i) => row.cells.getD i .null
  | some .number => .integer (Int64.ofInt row.number)
  | some (.constant s) => s
  | none => .null

/-- The affinity that a name gives to what it is compared with. -/
def affinity (f : Frame) (name : String) : Affinity :=
  match f.meaning? name with
  | some (.column i) => (f.definition.columns[i]?.map Column.affinity).getD .none
  | some .number => .integer
  | _ => .none

/-- The function of the result that a name is the label of. -/
def labelled? (f : Frame) (name : String) : Option Fold :=
  (f.measures.find? fun m => sameFolded m.label name).map Measure.fold

def unknown? (f : Frame) (names : List String) : Option String :=
  names.find? fun name => (f.meaning? name).isNone

/-- The first function whose result a condition speaks of. -/
def misused? (f : Frame) (names : List String) : Option Fold :=
  names.findSome? fun name => if (f.meaning? name).isNone then f.labelled? name else none

end Frame

namespace Condition

def amongTruth (a : Affinity) (s : Scalar) (operands : List Scalar) : Truth :=
  Truth.any (operands.map fun t => Comparison.truth .equal s (a.operand t))

mutual

def truth (f : Frame) (row : Row) : Condition → Truth
  | constant holds => some holds
  | isNull name => some (f.scalar row name).isNull
  | notNull name => some (!(f.scalar row name).isNull)
  | compare name how operand =>
    how.truth (f.scalar row name) ((f.affinity name).operand operand)
  | among name operands => amongTruth (f.affinity name) (f.scalar row name) operands
  | outside name operands => (amongTruth (f.affinity name) (f.scalar row name) operands).not
  | like name pattern => Pattern.truth pattern (f.scalar row name)
  | group .and parts => Truth.all (partTruths f row parts)
  | group .or parts => Truth.any (partTruths f row parts)

def truths (f : Frame) (row : Row) : List Condition → List Truth
  | [] => []
  | c :: cs => truth f row c :: truths f row cs

def partTruths (f : Frame) (row : Row) : List (List Condition) → List Truth
  | [] => []
  | part :: parts => Truth.all (truths f row part) :: partTruths f row parts

end

def selects (f : Frame) (cs : List Condition) (row : Row) : Bool :=
  (Truth.all (truths f row cs)).holds

/-- What is met when names are looked up in conditions from left to right. -/
inductive Visit
  /-- The joint of several conditions, which is met before them. -/
  | joint
  /-- A name that is tested for null. -/
  | test (name : String)
  /-- A name that is matched with a pattern. -/
  | likeness (name : String)
  /-- A name that is compared, or no name. -/
  | comparison (name : Option String)

def joined (parts : List (List Visit)) : List Visit :=
  if parts.length < 2 then parts.flatten else .joint :: parts.flatten

mutual

def visits : Condition → List Visit
  | constant _ => [.comparison none]
  | isNull name => [.test name]
  | notNull name => [.test name]
  | compare name _ _ => [.comparison (some name)]
  | among name _ => [.comparison (some name)]
  | outside name _ => [.comparison (some name)]
  | like name _ => [.likeness name]
  | group _ parts => joined (visitsOfParts parts)

def visitsOfEach : List Condition → List (List Visit)
  | [] => []
  | c :: cs => visits c :: visitsOfEach cs

def visitsOfParts : List (List Condition) → List (List Visit)
  | [] => []
  | part :: parts => joined (visitsOfEach part) :: visitsOfParts parts

end

/-- The name that is complained of: the first that means nothing, except that neither a test
nor a likeness ends the search, so that a test soon after it may take its place. -/
def complaint? (isUnknown : String → Bool) : Option String → List Visit → Option String
  | found, [] => found
  | found, .test name :: rest =>
    complaint? isUnknown (((some name).filter isUnknown).or found) rest
  | found, .likeness name :: rest =>
    complaint? isUnknown (found.or ((some name).filter isUnknown)) rest
  | some name, _ :: _ => some name
  | none, .joint :: rest => complaint? isUnknown none rest
  | none, .comparison name :: rest =>
    match name.filter isUnknown with
    | some name => some name
    | none => complaint? isUnknown none rest

/-- The name of conditions that means nothing and that is complained of. Labels mean
something here. -/
def unknown? (f : Frame) (cs : List Condition) : Option String :=
  complaint? (fun name => (f.meaning? name).isNone && (f.labelled? name).isNone) none
    (joined (visitsOfEach cs))

mutual

/-- Whether a condition has to match a pattern that is too long, when it is evaluated on
a row from left to right and no further than to its truth. -/
def strains (f : Frame) (row : Row) : Condition → Bool
  | like _ pattern => Pattern.largest < pattern.utf8ByteSize
  | group .and parts => strainsEach true f row parts
  | group .or parts => strainsEach false f row parts
  | _ => false

/-- Whether a conjunction does, of which what is not true ends the evaluation. -/
def strainsAll (f : Frame) (row : Row) : List Condition → Bool
  | [] => false
  | c :: cs => strains f row c || ((truth f row c).holds && strainsAll f row cs)

/-- Whether one of several conjunctions does, which are evaluated for as long as each of
them is true, or is not. -/
def strainsEach (goesOn : Bool) (f : Frame) (row : Row) : List (List Condition) → Bool
  | [] => false
  | part :: parts =>
    strainsAll f row part ||
      ((Truth.all (truths f row part)).holds == goesOn && strainsEach goesOn f row parts)

end

end Condition

namespace Order

def compareRows (f : Frame) : Order → Row → Row → Ordering
  | [], _, _ => .eq
  | (field, direction) :: rest, a, b =>
    let o := (f.scalar a field).order (f.scalar b field)
    match direction, o with
    | _, .eq => compareRows f rest a b
    | .ascending, o => o
    | .descending, o => o.swap

/-- Rows in order; rows that are equal in all fields stay as they were. -/
def sort (f : Frame) (order : Order) (rows : List Row) : List Row :=
  rows.mergeSort fun a b => compareRows f order a b != .gt

end Order

end Relata
