import DualScope.Number.Shortest

/-!
# Numbers as text

A number is written with the fewest digits that read back, always in positional
notation and never with an exponent: whole numbers without a point, all others
with at least one digit before it.
-/

namespace DualScope.Number

/-- The digits of a natural number. -/
def digits (n : Nat) : List Char :=
  Nat.toDigits 10 n

/-- The decimal `d · 10^p` in positional notation. -/
def positional (d : Nat) (p : Int) : List Char :=
  let ds := digits d
  if 0 ≤ p then ds ++ List.replicate p.toNat '0'
  else
    let places := (-p).toNat
    if places < ds.length then
      ds.take (ds.length - places) ++ '.' :: ds.drop (ds.length - places)
    else '0' :: '.' :: (List.replicate (places - ds.length) '0' ++ ds)

/-- The text of a number. Zero keeps its sign, a value that is no number has
none. -/
def text (x : Float) : List Char :=
  match parts x with
  | .notANumber => "NaN".toList
  | .infinite negative => (if negative then "-inf" else "inf").toList
  | .finite negative m q =>
    let magnitude := if m = 0 then ['0'] else positional (shortest m q).1 (shortest m q).2
    if negative then '-' :: magnitude else magnitude

end DualScope.Number
