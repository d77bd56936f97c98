import DualScope.Load
import DualScope.Primitive.Numeric
import DualScope.Value.Equality

/-!
# Calls of primitives

What each primitive does with its arguments. A result that the call makes carries
the span of the call; one that it only finds, such as the first part of a pair,
keeps its own.

Three primitives reach back into the evaluator. `eval` and `load` go through the
evaluation they are given; `apply` is a call in its own right and told where calls
are.
-/

namespace DualScope.Primitive

def arity : Primitive → Arity
  | .arithmetic op => op.arity
  | .comparison _ => Comparison.arity
  | .test _ | .car | .cdr | .length | .display | .print | .eval => .exactly 1
  | .eq | .equal | .cons | .apply => .exactly 2
  | .list => .atLeast 0
  | .newline => .exactly 0
  | .load => .between 1 2

/-- Ends a call with a fault. -/
def fault (p : Primitive) (span : Span) (f : Fault) : Action α :=
  .fail (.primitive p f span)

def ofFault (p : Primitive) (span : Span) : Except Fault α → Action α
  | .ok a => pure a
  | .error f => p.fault span f

/-- The value of a call in frame `i`. -/
def call (eval : Evaluation) (i : FrameId) (span : Span) : Primitive → List Value → Action Value
  | p@(.arithmetic op), args => return .number (← p.ofFault span (op.compute args)) span
  | p@(.comparison op), args => return .boolean (← p.ofFault span (op.compute args)) span
  | .test t, [v] => return .boolean (t.holds v) span
  | .eq, [v, w] => return .boolean (v.same w) span
  | .equal, [v, w] => return .boolean (v.equal w) span
  | .cons, [v, w] => return .pair (← Action.freshIdentity) v w span
  | .car, [.pair _ v _ _] => return v
  | .car, [v] => Primitive.car.fault span (.wrongType 0 .pair v.kind)
  | .cdr, [.pair _ _ v _] => return v
  | .cdr, [v] => Primitive.cdr.fault span (.wrongType 0 .pair v.kind)
  | .list, [] => return .nil span
  | .list, args => fun σ =>
    .value (.ofListFrom σ.made args) { σ with made := σ.made + args.length }
  | .length, [v] =>
    match v.length? with
    | some n => return .number (.ofNat n) span
    | none => Primitive.length.fault span (.wrongType 0 .list v.kind)
  | .display, [v] => do
    Action.write v.shown
    return .okay .none
  | .newline, [] => do
    Action.write "\n"
    return .okay .none
  | .print, [v] => do
    Action.write (v.text ++ "\n")
    return .okay .none
  | .eval, [v] => eval v i
  | .load, [name] => do
    Primitive.load.ofFault span (← Load.perform eval i name false)
    return .okay .none
  | .load, [name, quiet] => do
    Primitive.load.ofFault span (← Load.perform eval i name (!quiet.isTrue))
    return .okay .none
  | p, args => p.fault span (.arity p.arity args.length)

end DualScope.Primitive
