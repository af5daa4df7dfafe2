import Relata.Store.Access.Term

/-! # Routes

A route is a way to come by the rows of a conjunction: along a key from end to end, by
terms that restrict a key, or branch by branch. Its cost and the count of its rows are
estimated from nothing but the terms and the widths of the columns. A table is taken
to have a million rows.
-/

namespace Relata

/-- A key that can be gone along. -/
structure Probe where
  key : SearchKey
  /-- Whether no value is repeated. -/
  unique : Bool
  /-- The estimated width of what is read. -/
  width : Estimate

/-- A way to come by rows. -/
structure Route where
  /-- The key that is gone along; none for branches. -/
  key : Option SearchKey
  terms : List Term := []
  /-- Whether nothing but the key is read. -/
  covering : Bool := false
  cost : Estimate
  rows : Estimate
  /-- Routes of different ranks may leave rows in different orders, so that none of them
  stands for the other. -/
  rank : Nat := 0

structure Inquiry where
  frame : Frame
  /-- The keys of which something is shown or tested. -/
  needed : List SearchKey

def Estimate.tableRows : Estimate := 200

namespace Column

def width (c : Column) : Nat :=
  if c.affinity = .text then 5 else 1

end Column

namespace Inquiry

def width (q : Inquiry) : Estimate :=
  let d := q.frame.definition
  let columns := d.columns.foldl (fun n c => n + c.width) 0
  .ofNat (4 * (columns + if d.rowKey.isNone then 1 else 0))

def probes (q : Inquiry) : List Probe :=
  let d := q.frame.definition
  ⟨.number, true, q.width⟩ :: d.indexes.filterMap fun i => do
    let place ← d.index? i.column
    let c ← d.columns[place]?
    return ⟨.column place, i.unique, .ofNat (4 * (c.width + 1))⟩

end Inquiry

namespace Probe

def tells (p : Probe) (keys : List SearchKey) : Bool :=
  keys.all fun k => k == p.key || k == .number

/-- Whether going along the probe may help to sort by some keys. -/
def helps (p : Probe) (sorting : List SearchKey) : Bool :=
  sorting.any fun k => k == p.key || k == .number

/-- The rows that a restriction leaves, and how many times it is searched for. -/
def restricted (p : Probe) : List Restriction → Estimate × Estimate
  | [.equal] => (single, 0)
  | [.null] => (single + 10, 0)
  | [.among n] => (single, .ofNat n)
  | bounds =>
    let halved (b : Restriction) := b != .aboveNull
    let narrowed := 200 - 20 * ((bounds.filter halved).length + (bounds.length - 1 : Nat) : Int)
    (min (max 10 narrowed) (200 - bounds.length), 0)
where
  single : Estimate := if p.unique then 0 else 33

/-- The cost of reading the rest of the rows that a probe comes by, after the tests that
it can make itself. -/
def fetching (p : Probe) : Estimate → List Term → Estimate
  | e, [] => e
  | e, t :: ts => if p.tells t.keys then fetching p (e - if t.isEqual then 20 else 1) ts else e

end Probe

namespace Route

def remaining (own terms : List Term) (rows : Estimate) : Estimate :=
  let rest := own.filter fun t =>
    !t.derived && !t.isConstant && !terms.any fun s => s.place == t.place
  min (rows - rest.length) (200 - if rest.any Term.isEqual then 20 else 0)

def whole? (q : Inquiry) (own : List Term) (p : Probe) (rank : Nat) : Option Route :=
  let rows := remaining own [] .tableRows
  match p.key with
  | .number => some { key := some .number, cost := 216, rows, rank }
  | key =>
    let covering := p.tells q.needed
    if 0 < rank || (covering && p.width < q.width) then
      let cost := 201 + 15 * p.width / q.width
      let cost := if covering then cost else Estimate.add cost (p.fetching 216 own)
      some { key := some key, covering, cost, rows, rank }
    else none

def restricted (q : Inquiry) (own : List Term) (p : Probe) (rank : Nat)
    (terms : List Term) : Route :=
  let (rows, times) := p.restricted (terms.filterMap fun t => t.search.map Prod.snd)
  let covering := p.key != .number && p.tells q.needed
  let step := if p.key == .number then rows + 16 else rows + 1 + 15 * p.width / q.width
  let cost := Estimate.add (Estimate.log .tableRows) step
  let cost := if covering || p.key == .number then cost else Estimate.add cost (rows + 16)
  { key := some p.key, terms, covering, cost := cost + times
    rows := remaining own terms (rows + times), rank }

/-- Along a probe, by each term that restricts it; a term that bounds it from below may
go with one that bounds it from above. -/
def along (q : Inquiry) (own outer : List Term) (sorting : List SearchKey) (rank : Nat)
    (p : Probe) : List Route :=
  let rank := if p.helps sorting then rank + 1 else 0
  let searched := (own ++ outer).filter fun t => t.search.any fun s => s.1 == p.key
  let is (rs : List Restriction) (t : Term) := t.search.any fun s => rs.contains s.2
  (whole? q own p rank).toList ++ searched.flatMap fun t =>
    restricted q own p rank [t] ::
      if is [.above, .aboveNull] t then
        (searched.filter (is [.below])).map fun u => restricted q own p rank [t, u]
      else []

def least? (routes : List Route) : Option (Estimate × Estimate) :=
  (routes.filter fun r => !r.terms.isEmpty).foldl (fun best r =>
    match best with
    | none => some (r.cost, r.rows)
    | some (cost, rows) =>
      if r.cost ≤ cost then some (r.cost, min rows r.rows) else some (cost, rows)) none

mutual

/-- All routes to the rows of a conjunction, which may lie within other terms. The number
of groups is enough fuel. -/
def proposals (q : Inquiry) : Nat → List Term → List Term → List SearchKey → List Route
  | 0, own, outer, sorting => plain q own outer sorting
  | fuel + 1, own, outer, sorting =>
    plain q own outer sorting ++ own.filterMap (branchwise? q fuel own outer)

def branchwise? (q : Inquiry) (fuel : Nat) (own outer : List Term) (t : Term) : Option Route :=
  let sums := t.branches.mapIdx fun j part =>
    let terms := Term.ofConditions q.frame (fuel + 1) (t.place ++ [j]) part
    least? (proposals q fuel terms (own ++ outer) [])
  match sums.mapM id with
  | some ((cost, rows) :: rest) =>
    let cost := rest.foldl (fun c s => Estimate.add c s.1) cost
    let rows := rest.foldl (fun n s => Estimate.add n s.2) rows
    some { key := none, terms := [t], cost := cost + 1, rows }
  | _ => none

def plain (q : Inquiry) (own outer : List Term) (sorting : List SearchKey) : List Route :=
  (q.probes.mapIdx fun i p => along q own outer sorting i p).flatten

end

/-- Whether a route has fewer terms than another one, and is not worse in all respects. -/
def isPartOf (r s : Route) : Bool :=
  r.terms.length < s.terms.length && !(s.cost < r.cost && s.rows < r.rows) &&
    (r.terms.all fun t => s.terms.any t.isSame) && !(r.covering && !s.covering)

def isIndexed (r : Route) : Bool :=
  match r.key with
  | some (.column _) => true
  | _ => false

def compared (r : Route) (others : List Route) : Route :=
  others.foldl (fun r s =>
    if r.isIndexed && s.isIndexed then
      if s.isPartOf r then { r with cost := min s.cost r.cost, rows := min (s.rows - 1) r.rows }
      else if r.isPartOf s then
        { r with cost := max s.cost r.cost, rows := max (s.rows + 1) r.rows }
      else r
    else r) r

def standsFor (r s : Route) : Bool :=
  r.rank == s.rank && r.cost ≤ s.cost && r.rows ≤ s.rows

/-- A route is added, unless another one stands for it, and takes the place of those for
which it stands itself. -/
def enter (r : Route) : List Route → List Route
  | [] => [r]
  | s :: rest =>
    if s.standsFor r then s :: rest
    else if r.standsFor s then r :: rest.filter fun t => !r.standsFor t
    else s :: enter r rest

def retained (routes : List Route) : List Route :=
  routes.foldl (fun known r => enter (r.compared known) known) []

def restrictions (r : Route) : List Restriction :=
  r.terms.filterMap fun t => t.search.map Prod.snd

def isBy (r : Route) (p : Restriction → Bool) : Bool :=
  match r.key, r.restrictions with
  | some _, [x] => p x
  | _, _ => false

def isPoint : Restriction → Bool
  | .equal => true
  | .null => true
  | .among _ => true
  | _ => false

def isList : Restriction → Bool
  | .among _ => true
  | _ => false

end Route

end Relata
