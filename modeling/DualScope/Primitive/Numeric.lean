import DualScope.Error
import DualScope.Number.Binary

/-!
# Arithmetic and comparisons

What can be wrong with a call is looked for in a fixed order: the number of the
arguments, then their kinds from left to right, then zeros among the divisors. Only
then is anything computed, so no division by zero is ever carried out.
-/

namespace DualScope

/-- The arguments as numbers, behind those found before. -/
def numbersAfter (found : List Float) (position : Nat) : List Value → Except Fault (List Float)
  | [] => .ok found.reverse
  | .number x _ :: vs => numbersAfter (x :: found) (position + 1) vs
  | v :: _ => .error (.wrongType position .number v.kind)

def numbers (args : List Value) : Except Fault (List Float) :=
  numbersAfter [] 0 args

/-- The arguments as numbers, if there are as many as asked for. -/
def countedNumbers (arity : Arity) (args : List Value) : Except Fault (List Float) :=
  if arity.accepts args.length then numbers args
  else .error (.arity arity args.length)

/-- Divides by each of the divisors in turn. -/
def divide (x : Float) (divisors : List Float) : Except Fault Float :=
  if divisors.any (· == 0) then .error .divisionByZero
  else .ok (divisors.foldl (· / ·) x)

namespace Arithmetic

def arity : Arithmetic → Arity
  | .add | .mul => .atLeast 0
  | .sub | .div => .atLeast 1
  | .abs => .exactly 1
  | .quotient | .remainder => .exactly 2

/-- The result for numbers. A sum starts from negative zero, the one number that
changes no other when it is added, and a product from one. -/
def ofNumbers : Arithmetic → List Float → Except Fault Float
  | .add, xs => .ok (xs.foldl (· + ·) (-0.0))
  | .mul, xs => .ok (xs.foldl (· * ·) 1)
  | .sub, [x] => .ok (-x)
  | .sub, x :: xs => .ok (xs.foldl (· - ·) x)
  | .div, [x] => divide 1 [x]
  | .div, x :: xs => divide x xs
  | .abs, [x] => .ok x.abs
  | .quotient, [x, y] => (divide x [y]).map Number.truncated
  | .remainder, [x, y] =>
    if y == 0 then .error .divisionByZero else .ok (Number.remainder x y)
  | op, xs => .error (.arity op.arity xs.length)

def compute (op : Arithmetic) (args : List Value) : Except Fault Float :=
  countedNumbers op.arity args >>= op.ofNumbers

end Arithmetic

namespace Comparison

def arity : Arity := .atLeast 2

def holds : Comparison → Float → Float → Bool
  | .equal, x, y => x == y
  | .less, x, y => x < y
  | .lessEqual, x, y => x ≤ y
  | .greater, x, y => y < x
  | .greaterEqual, x, y => y ≤ x

/-- Whether the comparison holds between every two neighbours. -/
def chain (op : Comparison) : List Float → Bool
  | x :: y :: rest => op.holds x y && op.chain (y :: rest)
  | _ => true

def compute (op : Comparison) (args : List Value) : Except Fault Bool :=
  (countedNumbers arity args).map op.chain

end Comparison

/-- Whether the value passes the test. -/
def Test.holds : Test → Value → Bool
  | .isFalse, v => !v.isTrue
  | .isNil, v => v.kind == .nil
  | .isPair, v => v.kind == .pair
  | .isList, v => v.isProper
  | .isNumber, v => v.kind == .number
  | .isBoolean, v => v.kind == .boolean
  | .isSymbol, v => v.kind == .symbol
  | .isString, v => v.kind == .string
  | .isProcedure, v => v.kind == .procedure

end DualScope
