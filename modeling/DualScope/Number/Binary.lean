import DualScope.Number.Power

/-!
# Binary floating point, taken apart

A finite number of the language is `m · 2^q` with a natural `m` below `2^53` and
an integer `q` of at least `-1074`. Its text, its whole part and its remainder
are all found from the pair in exact arithmetic.
-/

namespace DualScope.Number

/-- A number as a sign, and either a magnitude `m · 2^q` or no finite value. -/
inductive Parts
  | notANumber
  | infinite (negative : Bool)
  | finite (negative : Bool) (m : Nat) (q : Int)
deriving DecidableEq

/-- The least exponent of a finite number. -/
def leastExponent : Int := -1074

/-- The parts of a number, read off its sixty-four bits: a sign, eleven bits of
exponent and fifty-two of fraction. -/
def parts (x : Float) : Parts :=
  let bits := x.toBits.toNat
  let negative := bits / twoTo 63 == 1
  let exponent := bits / twoTo 52 % twoTo 11
  let fraction := bits % twoTo 52
  if exponent = 2047 then
    if fraction = 0 then .infinite negative else .notANumber
  else if exponent = 0 then .finite negative fraction leastExponent
  else .finite negative (twoTo 52 + fraction) (leastExponent + (exponent - 1 : Nat))

/-- The number of magnitude `m · 2^q`, for an `m` and `q` that some number has
as its parts after shifting `m` to the left. -/
def ofParts (negative : Bool) (m : Nat) (q : Int) : Float :=
  let up := min (52 - m.log2) (q - leastExponent).toNat
  let m := m * twoTo up
  let steps := (q - up - leastExponent).toNat
  let bits := if m = 0 then 0 else steps * twoTo 52 + m
  .ofBits (.ofNat ((if negative then twoTo 63 else 0) + bits))

/-- The whole number next to `x` in the direction of zero. -/
def truncated (x : Float) : Float :=
  match parts x with
  | .finite negative m q =>
    if 0 ≤ q then x else ofParts negative (m / twoTo (-q).toNat) 0
  | _ => x

/-- What is left of `x` after taking away as many whole `y` as fit, toward zero;
the sign is that of `x`. -/
def remainder (x y : Float) : Float :=
  match parts x, parts y with
  | .finite negative m q, .finite _ n r =>
    let low := min q r
    let scaled := n * twoTo (r - low).toNat
    if scaled = 0 then 0.0 / 0.0
    else ofParts negative (m * twoTo (q - low).toNat % scaled) low
  | .finite .., .infinite _ => x
  | _, _ => 0.0 / 0.0

end DualScope.Number
