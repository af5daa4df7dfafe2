import Relata.Toml.Basic

/-! # Building tables

Tables come into being in four ways: under a header of their own, on the way to
another header, by a dotted key, and inside braces. The way decides what may still
be added to a table, and by what.
-/

namespace Relata.Toml

inductive Origin
  /-- Under its own header, or as the whole document. -/
  | header
  /-- On the way to another header. -/
  | passed
  /-- By a dotted key. -/
  | dotted
  deriving DecidableEq

mutual

inductive Draft
  | mk (origin : Origin) (entries : List (String × Slot))

/-- What stands under a name of a table that is being built. -/
inductive Slot
  | value (v : Toml)
  | table (t : Draft)
  | tables (ts : List Draft)

end

namespace Draft

def origin : Draft → Origin
  | mk o _ => o

def entries : Draft → List (String × Slot)
  | mk _ es => es

def empty (o : Origin) : Draft := mk o []

mutual

def finish : Draft → Toml
  | mk _ es => .table (finishEntries es)

def finishEntries : List (String × Slot) → List (String × Toml)
  | [] => []
  | (name, s) :: es => (name, finishSlot s) :: finishEntries es

def finishSlot : Slot → Toml
  | .value v => v
  | .table t => finish t
  | .tables ts => .array (finishAll ts)

def finishAll : List Draft → List Toml
  | [] => []
  | t :: ts => finish t :: finishAll ts

end

/-- Replaces what stands under a name, or adds it at the end. -/
def set (name : String) (s : Slot) : List (String × Slot) → List (String × Slot)
  | [] => [(name, s)]
  | (n, old) :: es => if n = name then (n, s) :: es else (n, old) :: set name s es

def changeLast? (f : Draft → Option Draft) : List Draft → Option (List Draft)
  | [] => none
  | [t] => (f t).map ([·])
  | t :: ts => (changeLast? f ts).map (t :: ·)

/-- Changes the table at the end of a path. Missing tables are made on the way; of a
list of tables the last is entered. A dotted key may not enter a table that has a
header of its own. -/
def change? (byKey : Bool) (f : Draft → Option Draft) : List String → Draft → Option Draft
  | [], t => f t
  | name :: path, mk o es =>
    match es.lookup name with
    | none =>
      (change? byKey f path (empty (if byKey then .dotted else .passed))).map
        fun t => mk o (set name (.table t) es)
    | some (.value _) => none
    | some (.table t) =>
      if byKey && t.origin == .header then none
      else (change? byKey f path t).map fun t => mk o (set name (.table t) es)
    | some (.tables ts) =>
      (changeLast? (change? byKey f path) ts).map fun ts => mk o (set name (.tables ts) es)

/-- A value is put under a new name. Tables of dotted keys and others do not mix. -/
def put? (path : List String) (name : String) (v : Toml) (t : Draft) : Option Draft :=
  change? true (fun t =>
    if (t.origin == .dotted) == path.isEmpty then none
    else if (t.entries.lookup name).isSome then none
    else some (mk t.origin (t.entries ++ [(name, .value v)]))) path t

/-- The table that a header names, if it may still be opened: a new one, or one that
was only passed. -/
def opened? (path : List String) (name : String) (root : Draft) : Option Draft :=
  match at? path root with
  | none => none
  | some none => some (empty .header)
  | some (some t) =>
    match t.entries.lookup name with
    | none => some (empty .header)
    | some (.table (mk .passed es)) => some (mk .header es)
    | some _ => none
where
  /-- The table at the end of a path, if the path can be walked; none where it ends
  before a table that is still missing. -/
  at? : List String → Draft → Option (Option Draft)
    | [], t => some (some t)
    | name :: path, t =>
      match t.entries.lookup name with
      | none => some none
      | some (.value _) => none
      | some (.table t) => at? path t
      | some (.tables ts) =>
        match ts.getLast? with
        | none => none
        | some t => at? path t

def close? (path : List String) (name : String) (root table : Draft) : Option Draft :=
  change? false (fun t => some (mk t.origin (set name (.table table) t.entries))) path root

/-- Whether a header may add a table to a list of tables. -/
def mayAppend (path : List String) (name : String) (root : Draft) : Bool :=
  match opened?.at? path root with
  | none => false
  | some none => true
  | some (some t) =>
    match t.entries.lookup name with
    | none => true
    | some (.tables _) => true
    | some _ => false

def append? (path : List String) (name : String) (root table : Draft) : Option Draft :=
  change? false (fun t =>
    match t.entries.lookup name with
    | none => some (mk t.origin (t.entries ++ [(name, .tables [table])]))
    | some (.tables ts) => some (mk t.origin (set name (.tables (ts ++ [table])) t.entries))
    | some _ => none) path root

end Draft

end Relata.Toml
