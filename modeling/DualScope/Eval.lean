import DualScope.Form
import DualScope.Primitive.Call
import DualScope.Stack

/-!
# Evaluation

An evaluation goes in steps. A step on a symbol or a constant ends it; a step on a
form or a call ends it too, or leaves an expression in tail position to go on with.
Everything that is not in tail position is evaluated in an evaluation of its own,
one level deeper, and there is a limit on how deep that may go.

The two strategies differ in one point. With `tailCall` an evaluation goes on with
what a step leaves; with `recursive` it starts another one for it, a level deeper.

The number of steps on the way from the outermost evaluation to the innermost is
bounded by a budget that no program can see: an evaluation that runs out of it is
cut short. The budget is there for the definition to be total, and a run of the
interpreter has more of it than it can ever use.
-/

namespace DualScope

inductive Strategy
  | recursive
  | tailCall
deriving DecidableEq

/-- How a session evaluates: with which strategy, and how deep at most. -/
structure Settings where
  strategy : Strategy
  limit : Nat
deriving DecidableEq

/-- The limit unless another one is asked for. -/
def Settings.defaultLimit : Nat := 10000

namespace Eval

section

variable (eval : Evaluation)

/-- Evaluates the operands of a call from left to right, behind those whose values
are known. -/
def operands (i : FrameId) (known : List Value) : List Value → Action (List Value)
  | [] => pure known.reverse
  | e :: es => do
    let v ← eval e i
    operands i (v :: known) es

/-- Calls a procedure from frame `i`. The body of a closure is left to be evaluated,
in a frame below the one that the closure was made in or, for a `mu`, below `i`. A
call of `apply` is a call of its first argument, whose body it does evaluate. -/
def apply (i : FrameId) (args callee : Value) (span : Span) : Action Next :=
  match callee with
  | .primitive .apply _ =>
    match args with
    | .pair _ inner (.pair _ list (.nil _) _) _ =>
      if list.isProper then do
        match ← apply i list inner inner.span with
        | .done v => return .done v
        | .eval e frame => return .done (← eval e frame)
      else Primitive.apply.fault span (.wrongType 1 .list list.kind)
    | args =>
      match args.list? with
      | some vs => Primitive.apply.fault span (.arity Primitive.apply.arity vs.length)
      | none => .fail (.malformed args)
  | .primitive p _ =>
    match args.list? with
    | some vs => return .done (← p.call eval i span vs)
    | none => .fail (.malformed args)
  | .lambda _ formals body home _ => return .eval body (← Action.callFrame home formals args span)
  | .mu _ formals body _ => return .eval body (← Action.callFrame i formals args span)
  | callee => .fail (.notCallable callee span)

/-- One step on an expression in frame `i`. -/
def step (e : Value) (i : FrameId) : Action Next :=
  match e with
  | .symbol name span => return .done (← Action.lookup i name span)
  | .pair _ head rest span =>
    if !rest.isProper then .fail (.malformed e)
    else
      match head.symbol?.bind Form.ofName? with
      | some form => form.perform eval i rest span
      | none => do
        let callee ← eval head i
        let args ← operands eval i [] rest.elements
        apply eval i (.ofList args) callee span
  | e => return .done e

end

/-- Evaluates an expression at a level that the limit allows, with a budget of steps
between here and the innermost evaluation. -/
def run (s : Settings) : Nat → Nat → Evaluation
  | 0, _ => fun _ _ => .cutShort
  | budget + 1, level => fun e i σ =>
    let nested : Evaluation := fun e i σ =>
      if s.limit ≤ level then .error (.tooDeep s.limit) σ
      else atLevel level fun _ => run s budget (level + 1) e i σ
    match step nested e i σ with
    | .value (.done v) σ => .value v σ
    | .value (.eval e i) σ =>
      match s.strategy with
      | .tailCall => run s budget level e i σ
      | .recursive => nested e i σ
    | .error err σ => .error err σ
    | .cutShort => .cutShort

/-- Evaluates an expression from `level` evaluations deep. -/
def nested (s : Settings) (budget level : Nat) : Evaluation := fun e i σ =>
  if s.limit ≤ level then .error (.tooDeep s.limit) σ
  else atLevel level fun _ => run s budget (level + 1) e i σ

theorem run_succ (s : Settings) (budget level : Nat) (e : Value) (i : FrameId) (σ : State) :
    run s (budget + 1) level e i σ =
      match step (nested s budget level) e i σ with
      | .value (.done v) σ => .value v σ
      | .value (.eval e i) σ =>
        match s.strategy with
        | .tailCall => run s budget level e i σ
        | .recursive => nested s budget level e i σ
      | .error err σ => .error err σ
      | .cutShort => .cutShort := rfl

end Eval

end DualScope
