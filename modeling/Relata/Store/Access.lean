import Relata.Query.Page
import Relata.Store.Access.Route

/-! # Access to rows

Where no order is asked for, rows come in the order in which they are come by: by their
numbers, by a column, or by the branches of a disjunction one after another. The
cheapest route decides, which is chosen by estimates, as is the question whether rows
that come by a column are still to be sorted. Whatever is chosen, the rows are the same.
-/

namespace Relata

/-- How rows are come by. -/
inductive Access
  | numbers (reversed : Bool)
  | column (place : Nat) (reversed : Bool)
  | branches (parts : List (List Condition × Access))

namespace Access

mutual

def arrange (f : Frame) : Access → List Row → List Row
  | numbers reversed, rows => if reversed then rows.reverse else rows
  | column place reversed, rows =>
    let cell (row : Row) : Scalar := row.cells.getD place .null
    let sorted := rows.mergeSort fun a b => (cell a).order (cell b) != .gt
    if reversed then sorted.reverse else sorted
  | branches parts, rows => arrangeBranches f parts rows

/-- Each row comes by the first branch that selects it. -/
def arrangeBranches (f : Frame) : List (List Condition × Access) → List Row → List Row
  | [], rows => rows
  | (part, access) :: rest, rows =>
    let (mine, others) := rows.partition (Condition.selects f part)
    arrange f access mine ++ arrangeBranches f rest others

end

end Access

abbrev SortKey := Option SearchKey × Direction

namespace Route

structure Sorting where
  /-- How many of the first fields are dealt with. -/
  dealt : Nat
  /-- Whether the route has to be gone along backwards for that. -/
  reversed : Bool

/-- Which fields terms make the same for all rows; a list of values does so only where a
limit lets each value be sorted on its own. -/
def fixed (r : Route) (own : List Term) (limited : Bool) (fields : List SortKey) : List Bool :=
  fields.map fun (key, _) => key.any fun k => own.any fun t =>
    match t.search with
    | some (l, .equal) => l == k
    | some (l, .null) => l == k
    | some (l, .among _) => limited && l == k && r.terms.any t.isSame
    | _ => false

/-- The keys of a route are compared with the fields one after another. -/
structure Walk where
  /-- Which fields are dealt with. -/
  done : List Bool
  /-- Whether no two rows are equal in what was compared. -/
  distinct : Bool
  direction : Option Direction := none
  stopped : Bool := false

/-- Compares one more key: it has to be the first field that is not dealt with, in the
direction of those before. The numbers of the rows tell all rows apart. -/
def Walk.step (q : Inquiry) (fields : List SortKey) (leading known : Bool) (key : SearchKey)
    (w : Walk) : Walk :=
  if w.stopped then w
  else
    let i := (w.done.takeWhile id).length
    let distinct := w.distinct && (known || q.frame.neverNull key)
    match fields[i]? with
    | some (k, d) =>
      if k = some key && w.direction.all (· = d) then
        { w with
          done := w.done.set i true
          distinct := distinct || key == .number
          direction := some d }
      else { w with distinct := distinct && !leading, stopped := true }
    | none => { w with distinct := distinct && !leading, stopped := true }

def isSingle (q : Inquiry) (r : Route) : Bool :=
  r.isBy (· == .equal) && q.probes.any fun p => some p.key == r.key && p.unique

def sorting (q : Inquiry) (own : List Term) (limited : Bool) (fields : List SortKey) (r : Route) :
    Sorting :=
  if r.isSingle q then ⟨fields.length, false⟩
  else
    match r.key with
    | none => ⟨0, false⟩
    | some key =>
      let unique := q.probes.any fun p => p.key == key && p.unique
      let fixedKey := r.isBy fun x => isPoint x && (limited || !isList x)
      let w : Walk := { done := r.fixed own limited fields, distinct := unique }
      let w :=
        if fixedKey then { w with distinct := unique && !r.isBy (· == .null) }
        else w.step q fields true (r.isBy isPoint) key
      let w := if key = .number then w else w.step q fields false true .number
      { dealt := if w.distinct then fields.length else (w.done.takeWhile id).length
        reversed := w.direction == some .descending }

def sortCost (rows : Estimate) (fields dealt : Nat) (limit : Option Estimate) : Estimate :=
  let partly : Estimate :=
    if dealt = 0 then 0 else Estimate.ofNat ((fields - dealt) * 100 / fields) - 66
  match limit with
  | none => rows + 10 + partly + Estimate.log rows
  | some l => rows + 20 + partly + (if dealt = 0 then 0 else 6) + Estimate.log (min l rows)

/-- A route with what it costs to have its rows sorted. -/
structure Choice where
  route : Route
  cost : Estimate
  /-- The cost without sorting. -/
  unsorted : Estimate
  sorting : Sorting

def Choice.isKept (c d : Choice) : Bool :=
  c.cost < d.cost ||
    (c.cost == d.cost && (c.route.rows < d.route.rows ||
      (c.route.rows == d.route.rows && c.unsorted ≤ d.unsorted)))

/-- The cheapest of routes whose rows are to be sorted by fields; how many rows there are
to be sorted was estimated before. -/
def cheapest? (q : Inquiry) (own : List Term) (fields : List SortKey) (rows : Estimate)
    (limit : Option Estimate) (routes : List Route) : Option Choice :=
  (routes.map choice).foldl (fun best c =>
    match best with
    | none => some c
    | some b => if b.isKept c then some b else some c) none
where
  choice (r : Route) : Choice :=
    let run := Estimate.add r.cost 0
    let s := if fields.isEmpty then ⟨0, false⟩ else r.sorting q own false fields
    if s.dealt < fields.length then
      ⟨r, Estimate.add run (sortCost rows fields.length s.dealt limit) + 3, run, s⟩
    else ⟨r, run, run - 2, s⟩

def limit? (take : Option UInt64) : Option Estimate :=
  match take.map Page.clamp with
  | none => none
  | some n => if n = 0 || 320 ≤ Estimate.ofNat n then none else some (.ofNat n)

/-- The route that is taken, and whether backwards. It is chosen without regard to the
order first, which tells how many rows there are to be sorted. -/
def choose? (q : Inquiry) (own : List Term) (fields : List SortKey) (take : Option UInt64)
    (routes : List Route) : Option (Route × Bool) := do
  let first ← cheapest? q own [] 0 none routes
  if fields.isEmpty then return (first.route, false)
  else
    let routes := if first.route.isBy isPoint then
        routes.filter fun r => !r.terms.isEmpty
      else routes
    let rows := if first.route.rows < 0 then 1 else first.route.rows + 1
    let c ← cheapest? q own fields rows (limit? take) routes
    if 0 < c.sorting.dealt then return (c.route, c.sorting.reversed)
    else
      let s := c.route.sorting q own true fields
      let apart := c.route.isSingle q || (c.route.key == some .number && c.route.isBy isList)
      return (c.route, s.dealt = fields.length && !apart && s.reversed)

end Route

namespace Access

/-- The conditions of a conjunction besides one of them that can be searched for, or have
branches. -/
def others (own : List Term) (cs : List Condition) (t : Term) : List Condition :=
  (own.zip cs).filterMap fun (s, c) =>
    match c with
    | .group _ _ => if s.isSame t || s.isConstant then none else some c
    | _ => if s.search.isSome then some c else none

/-- The access to the rows of a conjunction without needless groups. A single row is
looked up before anything is estimated. Fuel is more than the number of groups. -/
def ofConditions (q : Inquiry) (fields : List SortKey) (take : Option UInt64) (part : Bool) :
    Nat → List Condition → Access
  | 0, _ => numbers false
  | fuel + 1, cs =>
    let groups := Condition.groupsOfAll cs
    let own := Term.ofConditions q.frame (groups + 1) [] cs
    let single := own.any fun t => t.isEqual &&
      q.probes.any fun p => p.unique && t.search.any fun s => s.1 == p.key
    if single && !part then numbers false
    else
      let sorting := fields.filterMap Prod.fst
      let routes := Route.retained (Route.proposals q groups own [] sorting)
      match Route.choose? q own fields take routes with
      | some (⟨some .number, _, _, _, _, _⟩, reversed) => numbers reversed
      | some (⟨some (.column i), _, _, _, _, _⟩, reversed) => column i reversed
      | some (⟨none, t :: _, _, _, _, _⟩, _) =>
        branches (t.branches.map fun cs' =>
          (cs', ofConditions q [] none true fuel (cs' ++ others own cs t)))
      | _ => numbers false

def ofQuery (f : Frame) (needed : List String) (cs : List Condition) (order : Order)
    (take : Option UInt64) : Access :=
  let cs := Condition.normalAll cs
  let fields := order.map fun (field, d) => (f.key? field, d)
  ofConditions ⟨f, needed.filterMap f.key?⟩ fields take false (Condition.groupsOfAll cs + 1) cs

end Access

end Relata
