import Relata.Store.Access.Estimate
import Relata.Store.Frame

/-! # Search terms

A conjunction is a list of terms. A term that compares a key of the rows, which is an
indexed column or the number of a row, with something known can be searched for.
-/

namespace Relata

namespace Condition

mutual

/-- The conditions of a condition without needless groups: a conjunction is dissolved,
and a disjunction that is a branch of another one is dissolved into it. -/
def normal : Condition → List Condition
  | .group .and parts => normalParts parts
  | .group .or parts =>
    match normalBranches parts with
    | [part] => part
    | branches => [.group .or branches]
  | c => [c]

def normalAll : List Condition → List Condition
  | [] => []
  | c :: cs => normal c ++ normalAll cs

def normalParts : List (List Condition) → List Condition
  | [] => []
  | part :: parts => normalAll part ++ normalParts parts

def normalBranches : List (List Condition) → List (List Condition)
  | [] => []
  | part :: parts =>
    (match normalAll part with
      | [.group .or branches] => branches
      | cs => [cs]) ++ normalBranches parts

end

mutual

def groups : Condition → Nat
  | .group _ parts => groupsOfParts parts + 1
  | _ => 0

def groupsOfAll : List Condition → Nat
  | [] => 0
  | c :: cs => groups c + groupsOfAll cs

def groupsOfParts : List (List Condition) → Nat
  | [] => 0
  | part :: parts => groupsOfAll part + groupsOfParts parts

end

end Condition

inductive SearchKey
  | number
  | column (place : Nat)
  deriving DecidableEq

inductive Restriction
  | equal
  | null
  | among (count : Nat)
  | below
  | above
  /-- Above null, which is what a key is that is not null. -/
  | aboveNull
  deriving DecidableEq

structure Term where
  /-- Its place among the terms, after the place of the branch that they are in. -/
  place : List Nat
  /-- Whether it says once more what the term of the same place says. -/
  derived : Bool := false
  search : Option (SearchKey × Restriction) := none
  /-- The keys that it speaks of; none in a term that is the same for all rows. -/
  keys : List SearchKey := []
  /-- The branches of a disjunction of which each one can be searched for. -/
  branches : List (List Condition) := []

namespace Frame

def key? (f : Frame) (name : String) : Option SearchKey :=
  match f.meaning? name with
  | some (.column i) =>
    if (f.definition.columns[i]?.any fun c => f.definition.isKey c.name) then some .number
    else some (.column i)
  | some .number => some .number
  | _ => none

def neverNull (f : Frame) : SearchKey → Bool
  | .number => true
  | .column i => f.definition.columns[i]?.any Column.required

end Frame

namespace Term

def isSame (s t : Term) : Bool :=
  s.place == t.place && s.derived == t.derived

def isConstant (t : Term) : Bool :=
  t.keys.isEmpty

def ofName (f : Frame) (place : List Nat) (name : String) (how : Option Restriction) : Term :=
  match f.key? name with
  | none => { place }
  | some k => { place, search := how.map (k, ·), keys := [k] }

/-- The term of a test for null, which is constant where nothing is null. -/
def ofNullTest (f : Frame) (place : List Nat) (name : String) (how : Option Restriction) : Term :=
  if (f.key? name).any f.neverNull then { place } else ofName f place name how

def restriction? : Comparison → Option Restriction
  | .equal => some .equal
  | .different => none
  | .less => some .below
  | .atMost => some .below
  | .greater => some .above
  | .atLeast => some .above

/-- The key of which a term asks for a single value. -/
def equalKey? (t : Term) : Option SearchKey :=
  match t.search with
  | some (k, .equal) => some k
  | _ => none

def isEqual (t : Term) : Bool :=
  t.equalKey?.isSome

/-- The key of which all branches ask for a single value. -/
def commonKey? : List (List Term) → Option SearchKey
  | [] => none
  | [[t]] => t.equalKey?
  | [t] :: rest =>
    match t.equalKey?, commonKey? rest with
    | some k, some l => if k = l then some k else none
    | _, _ => none
  | _ :: _ => none

/-- That a key is not null says that it is above null. -/
def aboveNull? (t : Term) : Option Term :=
  t.keys.head?.map fun k => { t with derived := true, search := some (k, .aboveNull) }

/-- A disjunction of single values of one key is a list of values. -/
def asList? (t : Term) (parts : List (List Term)) : Option Term :=
  (commonKey? parts).map fun k =>
    { place := t.place, derived := true, search := some (k, .among parts.length), keys := [k] }

/-- The terms of a conjunction, the derived ones last and from the last one on. The
number of its groups is enough fuel. -/
def ofConditions (f : Frame) : Nat → List Nat → List Condition → List Term
  | 0, _, _ => []
  | fuel + 1, path, cs =>
    let terms := cs.mapIdx fun i c => of fuel (path ++ [i]) c
    terms.map Prod.fst ++ terms.reverse.filterMap Prod.snd
where
  /-- The term of a condition, and the one that is derived from it. -/
  of (fuel : Nat) (place : List Nat) : Condition → Term × Option Term
    | .constant _ => ({ place }, none)
    | .isNull name => (ofNullTest f place name (some .null), none)
    | .notNull name =>
      let t := ofNullTest f place name none
      (t, t.aboveNull?)
    | .compare name how _ => (ofName f place name (restriction? how), none)
    | .among name [_] => (ofName f place name (some .equal), none)
    | .among name operands => (ofName f place name (some (.among operands.length)), none)
    | .outside name _ => (ofName f place name none, none)
    | .like name _ => (ofName f place name none, none)
    | .group _ branches =>
      let parts := branches.mapIdx fun j part => ofConditions f fuel (place ++ [j]) part
      let keys := parts.flatMap fun ts => ts.flatMap Term.keys
      let searched := !keys.isEmpty && parts.all fun ts => ts.any fun t => t.search.isSome
      let t : Term := { place, keys, branches := if searched then branches else [] }
      (t, if searched then t.asList? parts else none)

end Term

end Relata
