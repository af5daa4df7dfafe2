/-! # Estimates

Counts and costs are estimated on a logarithmic scale, ten times the logarithm to the
base of two, in whole numbers.
-/

namespace Relata

/-- Ten times the logarithm of a count. -/
abbrev Estimate := Int

namespace Estimate

/-- The estimate of a count; its last digit comes from the four leading bits. -/
def ofNat (n : Nat) : Estimate :=
  if n < 2 then 0
  else
    let k := Nat.log2 n
    let leading := if k < 3 then n <<< (3 - k) else n >>> (k - 3)
    10 * k + [0, 2, 3, 5, 6, 7, 8, 9].getD (leading - 8) 0

/-- What the smaller of two counts adds to the larger one, by the distance of their
estimates. -/
def gains : List Int :=
  [10, 10, 9, 9, 8, 8, 7, 7, 7, 6, 6, 6, 5, 5, 5, 4, 4, 4, 4, 3, 3, 3, 3, 3, 3, 2, 2, 2, 2, 2, 2, 2]

def add (a b : Estimate) : Estimate :=
  let high := max a b
  let distance := (high - min a b).toNat
  if 49 < distance then high
  else if 31 < distance then high + 1
  else high + gains.getD distance 0

def log (a : Estimate) : Estimate :=
  if a ≤ 10 then 0 else ofNat a.toNat - 33

end Estimate

end Relata
