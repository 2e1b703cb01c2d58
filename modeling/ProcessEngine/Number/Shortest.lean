import ProcessEngine.Number.Dyadic

/-!
# Shortest decimals

`shortest m q` is the decimal with the fewest digits among those that round
to the float `m * 2 ^ q`, and of those the nearest to it.  The floats' reals
form an interval around the float, ends included exactly if `m` is even; the
search goes over decimal grids from coarse to fine and takes the first one
with a point in the interval.  If any point of a grid lies in the interval,
then one of the two grid points around the float does, so only these two are
tested.
-/

namespace ProcessEngine

/-- The decimal `digits * 10 ^ exponent`. -/
structure Decimal where
  digits : Nat
  exponent : Int
deriving Repr, DecidableEq

/-- Three fractions over one denominator: a float and the two ends of the
interval of reals that round to it. -/
structure RoundingInterval where
  low : Nat
  mid : Nat
  high : Nat
  den : Nat
  closed : Bool

namespace RoundingInterval

/-- The interval of the float `m * 2 ^ q`.  Below a power of two the
neighbours are half as far apart, except at the least exponent. -/
def ofDyadic (d : Dyadic) : RoundingInterval :=
  let m := d.mantissa
  let below := if m = 2 ^ 52 ∧ -1074 < d.exponent then 4 * m - 1 else 4 * m - 2
  let up := 2 ^ (d.exponent - 2).toNat
  { low := below * up, mid := 4 * m * up, high := (4 * m + 2) * up,
    den := 2 ^ (2 - d.exponent).toNat, closed := m % 2 == 0 }

/-- The interval in units of `10 ^ p`. -/
def rescale (i : RoundingInterval) (p : Int) : RoundingInterval :=
  let up := 10 ^ (-p).toNat
  { i with low := i.low * up, mid := i.mid * up, high := i.high * up,
           den := i.den * 10 ^ p.toNat }

/-- Whether the whole number `n` lies in the interval. -/
def contains (i : RoundingInterval) (n : Nat) : Bool :=
  if i.closed then decide (i.low ≤ n * i.den ∧ n * i.den ≤ i.high)
  else decide (i.low < n * i.den ∧ n * i.den < i.high)

/-- The whole number of the interval nearest to its float, the even one of
two equally near; `none` if there is no whole number in the interval. -/
def nearest? (i : RoundingInterval) : Option Nat :=
  let n := i.mid / i.den
  let r := i.mid % i.den
  let down := i.contains n && decide (0 < n)
  let up := i.contains (n + 1)
  if down && (!up || decide (2 * r < i.den) || decide (2 * r = i.den ∧ n % 2 = 0)) then some n
  else if up then some (n + 1)
  else none

end RoundingInterval

/-- The first of `fuel` grids, from `10 ^ p` downwards, with a point in the
interval. -/
def coarsest (i : RoundingInterval) : Nat → Int → Option Decimal
  | 0, _ => none
  | fuel + 1, p =>
    match (i.rescale p).nearest? with
    | some n => some ⟨n, p⟩
    | none => coarsest i fuel (p - 1)

/-- A power of ten that is too coarse for a float below `2 ^ (q + 53)`. -/
def coarseStart (d : Dyadic) : Int := (d.exponent + Nat.log2 d.mantissa + 1) * 30103 / 100000 + 2

/-- The shortest decimal that rounds to a positive magnitude.  Seventeen
digits tell any two floats apart, so the search ends within its bound. -/
def Dyadic.shortest (d : Dyadic) : Decimal :=
  (coarsest (.ofDyadic d) 24 (coarseStart d)).getD ⟨0, 0⟩

end ProcessEngine
