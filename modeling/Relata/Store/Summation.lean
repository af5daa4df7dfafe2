import Relata.Number.Word
import Relata.Store.Affinity

/-! # Sums

Integers are added exactly for as long as the sum fits 64 bits. From the first other
number on the sum is a double, and what its roundings lose is summed beside it.
-/

namespace Relata

/-- A sum of doubles and the sum of what was lost in it. -/
structure Compensated where
  sum : Binary64
  lost : Binary64

namespace Compensated

open Binary64

/-- Adds a double: what its rounding loses is found from the smaller of both terms. -/
def add (c : Compensated) (x : Binary64) : Compensated :=
  let t := c.sum.add x
  let part :=
    if x.magnitude < c.sum.magnitude then (c.sum.sub t).add x
    else (x.sub t).add c.sum
  ⟨t, c.lost.add part⟩

/-- Integers from here on are added in two parts, so that each is a double. -/
def wide (n : Int) : Bool :=
  n ≤ -4503599627370496 || 4503599627370496 ≤ n

def addInt (c : Compensated) (n : Int) : Compensated :=
  if wide n then
    let low := n.tmod 16384
    (c.add (.ofInt (n - low))).add (.ofInt low)
  else c.add (.ofInt n)

/-- The sum so far, when it stops being an integer. -/
def start (n : Int) : Compensated :=
  if wide n then
    let low := n.tmod 16384
    ⟨.ofInt (n - low), .ofInt low⟩
  else ⟨.ofInt n, .zero⟩

def total (c : Compensated) : Binary64 :=
  if c.lost.isFinite then c.sum.add c.lost else c.sum

end Compensated

/-- A running sum over scalars that are not null. -/
inductive Total
  | exact (n : Int)
  /-- The sum is a double; `overflowed` if only because it outgrew 64 bits. -/
  | rounded (c : Compensated) (overflowed : Bool)

namespace Total

def addReal : Total → Binary64 → Total
  | exact n, x => rounded ((Compensated.start n).add x) false
  | rounded c _, x => rounded (c.add x) false

/-- Adds a scalar as the number that it is, or that its text begins with. -/
def add (t : Total) (s : Scalar) : Total :=
  match Affinity.toNumber s with
  | .null => t
  | .integer m =>
    let m := m.toInt
    match t with
    | exact n =>
      if Word.holdsSigned (n + m) then exact (n + m)
      else rounded ((Compensated.start n).addInt m) true
    | rounded c o => rounded (c.addInt m) o
  | .real x => t.addReal x
  | .text s => t.addReal (Numeral.leading s)
  | .blob bytes =>
    t.addReal (Numeral.leading (String.ofList (bytes.map fun b => Char.ofNat b.toNat)))

def of (cells : List Scalar) : Total :=
  cells.foldl add (exact 0)

def toReal : Total → Binary64
  | exact n => .ofInt n
  | rounded c _ => c.total

end Total

end Relata
