import DualScope.Number.Binary

/-!
# The fewest digits that read back

Between a finite number and its two neighbours lie many decimals that reading
rounds to it. The one that is written has the fewest digits; among those of that
many digits it is the nearest to the number, and of two equally near the upper.

All of it happens on grids of powers of ten, the coarsest first, in exact
arithmetic: whenever some point of a grid reads back, so does one of the two
points of the grid that enclose the number.
-/

namespace DualScope.Number

/-- The decimals that read back as `m · 2^q`: those between `low` and `high` over
a common denominator, with the ends when `closed` holds. -/
structure Interval where
  value : Nat
  low : Nat
  high : Nat
  denominator : Nat
  closed : Bool

/-- The interval of `m · 2^q`. A gap to a neighbour is halved; the gap below a
power of two is half as wide as the one above, but for the smallest exponent. An
even `m` takes the ends, where reading would have to choose. -/
def Interval.of (m : Nat) (q : Int) : Interval :=
  let up := twoTo (q - 2).toNat
  let gap := if m = twoTo 52 && q ≠ leastExponent then 1 else 2
  { value := 4 * m * up
    low := (4 * m - gap) * up
    high := (4 * m + 2) * up
    denominator := twoTo (2 - q).toNat
    closed := m % 2 = 0 }

/-- Whether the decimal `digits · 10^p` reads back. -/
def Interval.holds (i : Interval) (digits : Nat) (p : Int) : Bool :=
  let d := digits * tenTo p.toNat * i.denominator
  let low := i.low * tenTo (-p).toNat
  let high := i.high * tenTo (-p).toNat
  if i.closed then low ≤ d && d ≤ high else low < d && d < high

/-- The point of the grid of `10^p` that is written for the number, if one of the
two that enclose it reads back. -/
def Interval.onGrid (i : Interval) (p : Int) : Option Nat :=
  let unit := tenTo p.toNat * i.denominator
  let value := i.value * tenTo (-p).toNat
  let below := value / unit
  match i.holds below p, i.holds (below + 1) p with
  | true, true =>
    if value - below * unit < (below + 1) * unit - value then some below else some (below + 1)
  | true, false => some below
  | false, true => some (below + 1)
  | false, false => none

/-- The first grid of `10^p`, `10^(p-1)`, … that has a point to write, and that
point. -/
def Interval.search (i : Interval) : Nat → Int → Nat × Int
  | 0, p => (i.value * tenTo (-p).toNat / (tenTo p.toNat * i.denominator), p)
  | steps + 1, p =>
    match i.onGrid p with
    | some digits => (digits, p)
    | none => i.search steps (p - 1)

/-- A power of ten above `m · 2^q`, by at most a factor of a thousand. -/
def scale (m : Nat) (q : Int) : Int :=
  let b := (m.log2 + 1 : Nat) + q
  if 0 ≤ b then b * 30103 / 100000 + 1 else b * 30102 / 100000 + 1

/-- The digits `d` and the exponent `p` of the decimal `d · 10^p` that is written
for `m · 2^q`. Seventeen digits always read back, so twenty grids are enough. -/
def shortest (m : Nat) (q : Int) : Nat × Int :=
  (Interval.of m q).search 20 (scale m q)

end DualScope.Number
