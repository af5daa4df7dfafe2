import Relata.Query.Filter

/-! # Aggregates

Functions of the columns of all rows that a filter selects. Each result has an
label made of its group and its field, and comes back under these two names.
-/

namespace Relata

inductive Fold
  | count | sum | avg | min | max
  deriving DecidableEq

inductive Counted
  | rows
  | fields (names : List String)
  deriving DecidableEq

structure Aggregate where
  filter : Filter := []
  count : Option Counted := none
  sum : List String := []
  avg : List String := []
  min : List String := []
  max : List String := []

/-- One result: a function of a column, or of whole rows, under a label. -/
structure Measure where
  fold : Fold
  column : Option String
  label : String
  deriving DecidableEq

def Fold.keyword : Fold → String
  | count => "COUNT"
  | sum => "SUM"
  | avg => "AVG"
  | min => "MIN"
  | max => "MAX"

def Fold.group : Fold → String
  | count => "_count"
  | sum => "_sum"
  | avg => "_avg"
  | min => "_min"
  | max => "_max"

namespace Aggregate

/-- The field that stands for whole rows in a count. -/
def everyRow : String := "_all"

/-- One more counted field. A count of rows gives way to it. -/
def countField (a : Aggregate) (field : String) : Aggregate :=
  match a.count with
  | some (.fields names) => { a with count := some (.fields (names ++ [field])) }
  | _ => { a with count := some (.fields [field]) }

def fieldsOf (a : Aggregate) : Fold → List String
  | .count => []
  | .sum => a.sum
  | .avg => a.avg
  | .min => a.min
  | .max => a.max

def folds : List Fold := [.sum, .avg, .min, .max]

def fields (a : Aggregate) : List String :=
  (match a.count with
    | some (.fields names) => names.filter (· ≠ everyRow)
    | _ => []) ++ folds.flatMap a.fieldsOf

def label (group field : String) : String :=
  group ++ "__" ++ field

def measure (fold : Fold) (field : String) : Except Fault Measure :=
  if fold = .count ∧ field = everyRow then
    .ok ⟨.count, none, label fold.group field⟩
  else do
    let field ← checkedName field
    return ⟨fold, some field, label fold.group field⟩

def measuresOf (fold : Fold) : List String → Except Fault (List Measure)
  | [] => .ok []
  | field :: rest => do
    let m ← measure fold field
    let ms ← measuresOf fold rest
    return m :: ms

def measures (a : Aggregate) : Except Fault (List Measure) := do
  let counts ← match a.count with
    | none => .ok []
    | some .rows => .ok [⟨.count, none, Fold.count.group⟩]
    | some (.fields names) => measuresOf .count names
  let sums ← measuresOf .sum a.sum
  let avgs ← measuresOf .avg a.avg
  let mins ← measuresOf .min a.min
  let maxs ← measuresOf .max a.max
  return counts ++ sums ++ avgs ++ mins ++ maxs

/-- The results of a group are taken out of a row one after another; what is not
there, or was taken before, is null. -/
def takeGroup (group : String) : List String → Record → Entries Value × Record
  | [], row => ([], row)
  | field :: rest, row =>
    let name := label group field
    let v := (Entries.get? row name).getD .null
    let (vs, row) := takeGroup group rest (Entries.erase row name)
    ((field, v) :: vs, row)

def reshapeFolds (a : Aggregate) : List Fold → Record → Record
  | [], _ => []
  | fold :: rest, row =>
    if (a.fieldsOf fold).isEmpty then reshapeFolds a rest row
    else
      let (group, row) := takeGroup fold.group (a.fieldsOf fold) row
      (fold.group, .object (Entries.ofList group)) :: reshapeFolds a rest row

def reshape (a : Aggregate) (row : Record) : Record :=
  let group := Fold.count.group
  match a.count with
  | none => reshapeFolds a folds row
  | some .rows =>
    (group, (Entries.get? row group).getD .null) :: reshapeFolds a folds (Entries.erase row group)
  | some (.fields names) =>
    let (counts, row) := takeGroup group names row
    (group, .object (Entries.ofList counts)) :: reshapeFolds a folds row

def selected (what : String) : Json → Except Fault (List String)
  | .null => .ok []
  | .object members => .ok <|
    members.filterMap fun (name, item) => if item.isTrue then some name else none
  | other => .error (.malformed (.notObject what other.kind))

def selectedUnder (what : String) (members : List (String × Json)) : Except Fault (List String) :=
  match Json.member? what members with
  | some item => selected what item
  | none => .ok []

def countedOfJson : Json → Except Fault (Option Counted)
  | .null => .ok none
  | .bool b => .ok (if b then some .rows else none)
  | .object members =>
    (selected Fold.count.group (.object members)).map fun names => some (.fields names)
  | other => .error (.malformed (.notFlagOrObject Fold.count.group other.kind))

def ofJson : Json → Except Fault Aggregate
  | .object members => do
    let filter ← match Json.member? "where" members with
      | some w => Filter.ofJson w
      | none => .ok []
    let count ← match Json.member? Fold.count.group members with
      | some c => countedOfJson c
      | none => .ok none
    let sum ← selectedUnder Fold.sum.group members
    let avg ← selectedUnder Fold.avg.group members
    let min ← selectedUnder Fold.min.group members
    let max ← selectedUnder Fold.max.group members
    return { filter, count, sum, avg, min, max }
  | other => .error (.malformed (.notObject "aggregate arguments" other.kind))

end Aggregate

end Relata
