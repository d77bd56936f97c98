/-!
# Numbers in a text

A number is written with an optional sign, digits with at most one point among
or around them, and an optional exponent. Every such text denotes a number: the
one nearest to the decimal it spells, which may be zero or infinite.
-/

namespace DualScope.Number

/-- A decimal as it is spelled: `± digits · 10^exponent`. -/
structure Numeral where
  negative : Bool
  digits : Nat
  exponent : Int
deriving DecidableEq

namespace Numeral

/-- The natural number that the digits spell, behind those read before. -/
def value (before : Nat) (ds : List Char) : Nat :=
  ds.foldl (fun n c => 10 * n + (c.toNat - '0'.toNat)) before

/-- A sign, if the text starts with one, and the rest. -/
def sign : List Char → Bool × List Char
  | '-' :: cs => (true, cs)
  | '+' :: cs => (false, cs)
  | cs => (false, cs)

/-- The exponent that the text spells, from the mark on: none at all is an
exponent of zero, a mark without digits is no exponent. -/
def exponent? : List Char → Option Int
  | [] => some 0
  | c :: cs =>
    let (negative, ds) := sign cs
    if (c = 'e' || c = 'E') && !ds.isEmpty && ds.all Char.isDigit then
      let n := value 0 ds
      some (if negative then -(n : Int) else n)
    else none

/-- The numeral that the text spells up to its exponent, and what follows it:
digits before the point, after it, or both. -/
def mantissa? (cs : List Char) : Option (Numeral × List Char) :=
  let (negative, cs) := sign cs
  let whole := cs.takeWhile Char.isDigit
  let (fraction, rest) :=
    match cs.dropWhile Char.isDigit with
    | '.' :: after => (after.takeWhile Char.isDigit, after.dropWhile Char.isDigit)
    | rest => ([], rest)
  if whole.isEmpty && fraction.isEmpty then none
  else some (⟨negative, value (value 0 whole) fraction, -fraction.length⟩, rest)

/-- The numeral that the whole text spells, if it is one. -/
def parse? (cs : List Char) : Option Numeral :=
  match mantissa? cs with
  | some (n, rest) => (exponent? rest).map fun e => { n with exponent := n.exponent + e }
  | none => none

/-- Whether the text is a numeral broken off behind the mark of its exponent. -/
def isBrokenOff (cs : List Char) : Bool :=
  match mantissa? cs with
  | some (_, [mark]) => mark = 'e' || mark = 'E'
  | _ => false

/-- The number nearest to the numeral. -/
def toFloat (n : Numeral) : Float :=
  let magnitude := Float.ofScientific n.digits (n.exponent < 0) n.exponent.natAbs
  if n.negative then -magnitude else magnitude

end Numeral

end DualScope.Number
