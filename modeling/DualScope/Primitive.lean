/-!
# The names of the primitives

A primitive procedure is known by its name alone: two values are the same
primitive exactly when the names agree. What each one does is told elsewhere; a
value only says which one it is.
-/

namespace DualScope

/-- Arithmetic: numbers to a number. -/
inductive Arithmetic
  | add | sub | mul | div | abs | quotient | remainder
deriving DecidableEq

/-- Comparisons: a chain of numbers to a truth value. -/
inductive Comparison
  | equal | less | lessEqual | greater | greaterEqual
deriving DecidableEq

/-- Tests of one value of any kind. -/
inductive Test
  | isFalse | isNil | isPair | isList | isNumber | isBoolean | isSymbol | isString | isProcedure
deriving DecidableEq

inductive Primitive
  | arithmetic (op : Arithmetic)
  | comparison (op : Comparison)
  | test (op : Test)
  | eq
  | equal
  | cons
  | car
  | cdr
  | list
  | length
  | display
  | newline
  | print
  | eval
  | apply
  | load
deriving DecidableEq

def Arithmetic.name : Arithmetic → String
  | .add => "+"
  | .sub => "-"
  | .mul => "*"
  | .div => "/"
  | .abs => "abs"
  | .quotient => "quotient"
  | .remainder => "remainder"

def Comparison.name : Comparison → String
  | .equal => "="
  | .less => "<"
  | .lessEqual => "<="
  | .greater => ">"
  | .greaterEqual => ">="

def Test.name : Test → String
  | .isFalse => "not"
  | .isNil => "null?"
  | .isPair => "pair?"
  | .isList => "list?"
  | .isNumber => "number?"
  | .isBoolean => "boolean?"
  | .isSymbol => "symbol?"
  | .isString => "string?"
  | .isProcedure => "procedure?"

namespace Primitive

def name : Primitive → String
  | .arithmetic op => op.name
  | .comparison op => op.name
  | .test op => op.name
  | .eq => "eq?"
  | .equal => "equal?"
  | .cons => "cons"
  | .car => "car"
  | .cdr => "cdr"
  | .list => "list"
  | .length => "length"
  | .display => "display"
  | .newline => "newline"
  | .print => "print"
  | .eval => "eval"
  | .apply => "apply"
  | .load => "load"

/-- Every primitive, in the order in which a global frame binds them. -/
def all : List Primitive :=
  [.arithmetic .add, .arithmetic .sub, .arithmetic .mul, .arithmetic .div,
   .comparison .equal, .comparison .less, .comparison .lessEqual,
   .comparison .greater, .comparison .greaterEqual,
   .arithmetic .abs, .arithmetic .quotient, .arithmetic .remainder,
   .test .isFalse, .eq, .equal,
   .cons, .car, .cdr, .list, .length,
   .test .isNil, .test .isPair, .test .isList, .test .isNumber, .test .isBoolean,
   .test .isSymbol, .test .isString, .test .isProcedure,
   .display, .newline, .print, .eval, .apply, .load]

end Primitive

end DualScope
