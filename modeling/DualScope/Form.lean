import DualScope.Form.Shape
import DualScope.Run

/-!
# Special forms

A form decides which of its operands are evaluated, and where. It comes back with a
value that is final, or with the expression that is left to be evaluated in its
place and the frame for it. A final value is never evaluated again, so a symbol or a
list that a form returns stays data.

All that a form needs from the evaluator is a way to evaluate an operand.
-/

namespace DualScope

/-- The names that the evaluator takes as forms. -/
inductive Form
  | and | begin | cond | define | ifElse | lambda | letIn | mu | or | quote
deriving DecidableEq

/-- What is left to do after a step of an evaluation. -/
inductive Next
  | done (v : Value)
  | eval (e : Value) (frame : FrameId)
deriving DecidableEq

namespace Form

def name : Form → String
  | .and => "and"
  | .begin => "begin"
  | .cond => "cond"
  | .define => "define"
  | .ifElse => "if"
  | .lambda => "lambda"
  | .letIn => "let"
  | .mu => "mu"
  | .or => "or"
  | .quote => "quote"

/-- Every form, in order of the names. -/
def all : List Form :=
  [.and, .begin, .cond, .define, .ifElse, .lambda, .letIn, .mu, .or, .quote]

def ofName? : String → Option Form
  | "and" => some .and
  | "begin" => some .begin
  | "cond" => some .cond
  | "define" => some .define
  | "if" => some .ifElse
  | "lambda" => some .lambda
  | "let" => some .letIn
  | "mu" => some .mu
  | "or" => some .or
  | "quote" => some .quote
  | _ => none

section

variable (eval : Evaluation) (i : FrameId)

/-- Evaluates an expression that may be missing. -/
def evalOption : Option Value → Action Value
  | some e => eval e i
  | none => .fail .missingExpression

/-! ## Sequences -/

/-- The value of the first false expression, or else of the last one; `last` if
there are none. -/
def conjunction (last : Value) : List Value → Action Value
  | [] => pure last
  | e :: es => do
    let v ← eval e i
    if v.isTrue then conjunction v es else return v

/-- The value of the first true expression; the last one is left to be evaluated.
`none` stands for false. -/
def disjunction (none : Value) : List Value → Action Next
  | [] => return .done none
  | [e] => return .eval e i
  | e :: es => do
    let v ← eval e i
    if v.isTrue then return .done v else disjunction none es

/-- The value of the last expression, after all others. -/
def sequence (last : Value) : List Value → Action Value
  | [] => pure last
  | e :: es => do
    let v ← eval e i
    sequence v es

/-- Evaluates all but the last expression, which is left. -/
def body (span : Span) : List Value → Action Next
  | [] => .fail (.badForm .noBody span)
  | [e] => return .eval e i
  | e :: es => do
    let _ ← eval e i
    body span es

/-! ## Clauses of `cond` -/

/-- The value of the test of a clause. The test `else` is true and stands only before
a body in the last clause. -/
def test (clause expr body : Value) (isLast : Bool) : Action Value :=
  if expr.symbol? = some "else" then
    if !isLast then .fail (.badElse .notLast clause.span)
    else if body.isNil then .fail (.badElse .empty clause.span)
    else return .boolean true expr.span
  else eval expr i

/-- Goes to the body of the first clause whose test is true. -/
def clauses : List Value → Action Next
  | [] => return .done (.okay .none)
  | clause :: rest => do
    .ofExcept (checkLength clause 1 none)
    let (expr, body) ← .ofExcept (uncons clause)
    let v ← test eval i clause expr body rest.isEmpty
    if v.isTrue then
      if body.isNil then return .done v else return .eval (bodyExpression body) i
    else clauses rest

/-! ## Binding forms -/

/-- The bindings that a `let` makes, behind those already made. The values are found
outside of the frame that is to hold them. -/
def letBindings (made : List (String × Value)) :
    List Value → Action (List (String × Value))
  | [] => pure made
  | binding :: rest => do
    .ofExcept (checkLength binding 1 (some 2))
    let (target, values) ← .ofExcept (uncons binding)
    let v ← evalOption eval i values.car?
    match target.symbol? with
    | some name => letBindings (Frame.insert name v made) rest
    | none => .fail (.badTarget target)

/-- A closure of the frame. -/
def makeLambda (operands : Value) (span : Span) : Action Value := do
  let (formals, body) ← .ofExcept (procedureParts operands)
  return .lambda (← Action.freshIdentity) formals body i span

def makeMu (operands : Value) (span : Span) : Action Value := do
  let (formals, body) ← .ofExcept (procedureParts operands)
  return .mu (← Action.freshIdentity) formals body span

/-- Binds a name in the frame itself: to the value of an expression, or, where a list
of the name and formals stands in its place, to a closure. -/
def definition (operands : Value) (span : Span) : Action Value := do
  .ofExcept (checkLength operands 2 none)
  let (target, rest) ← .ofExcept (uncons operands)
  match target with
  | .symbol name _ =>
    .ofExcept (checkLength operands 2 (some 2))
    let v ← evalOption eval i rest.car?
    Action.bindIn i name v
    return target
  | .pair _ name formals _ =>
    let procedure ← makeLambda i (.pair .anonymous formals rest target.span) span
    Action.define i name procedure
    return name
  | _ => .fail (.badDefinition target)

/-! ## All forms -/

/-- What a form does with its operands in the frame; `span` is that of the form.

The frame of a `let` is made behind the values, and nothing could tell this from making it
in front of them: they are found in the frame of the form, no closure and no other frame
refers to the new one before the body begins, and the number of a frame is no data. -/
def perform (operands : Value) (span : Span) : Form → Action Next
  | .and => return .done (← conjunction eval i (.boolean true operands.span) operands.elements)
  | .or => disjunction eval i (.boolean false operands.span) operands.elements
  | .ifElse => do
    .ofExcept (checkLength operands 2 (some 3))
    let v ← evalOption eval i operands.car?
    match operands.elements[if v.isTrue then 1 else 2]? with
    | some e => return .eval e i
    | none => return .done (.okay .none)
  | .cond => clauses eval i operands.elements
  | .begin => do
    .ofExcept (checkLength operands 1 none)
    return .done (← sequence eval i (.okay .none) operands.elements)
  | .lambda => return .done (← makeLambda i operands span)
  | .mu => return .done (← makeMu operands span)
  | .define => return .done (← definition eval i operands span)
  | .quote => do
    .ofExcept (checkLength operands 1 (some 1))
    let (v, _) ← .ofExcept (uncons operands)
    return .done v
  | .letIn => do
    .ofExcept (checkLength operands 2 none)
    let (bindings, exprs) ← .ofExcept (uncons operands)
    if !bindings.isProper then
      .fail (.badForm (.badBindings bindings) bindings.span)
    else
      let made ← letBindings eval i [] bindings.elements
      let frame ← Action.newFrame ⟨some i, made⟩
      body eval frame operands.span exprs.elements

end

end Form

end DualScope
