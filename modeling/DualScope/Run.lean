import DualScope.State
import DualScope.Value.Stamp

/-!
# Running a text

A text is taken apart into tokens as a whole; then its expressions are evaluated in
order, each in the state that the one before it left. An error is reported and does
not stop the run, and a fault of the reader ends it, behind the evaluation of what
was read before.

How an expression is evaluated is a parameter: a session runs texts from the
outside, and `load` runs them in the middle of an evaluation.
-/

namespace DualScope

/-- A way to evaluate an expression in a frame. -/
abbrev Evaluation := Value → FrameId → Action Value

namespace Run

/-- Takes up what was read from one text: its pairs become those of this session. -/
def enter (vs : List Value) : Action (List Value) := fun σ =>
  .value (Value.stampAll σ.texts vs) { σ with texts := σ.texts + 1 }

def report (source text : String) (e : RunError) : Action Unit :=
  Action.change (·.emit (.reported source text e))

/-- Evaluates the expressions in order and reports errors; the result is the number
of errors, with those before. -/
def expressions (eval : Evaluation) (i : FrameId) (source text : String) (echo : Bool)
    (errors : Nat) : List Value → Action Nat
  | [] => pure errors
  | e :: es => do
    match ← (eval e i).attempt with
    | .ok v =>
      if echo && !v.isOkay then
        Action.write (v.text ++ "\n")
      expressions eval i source text echo errors es
    | .error err =>
      report source text (.eval err)
      expressions eval i source text echo (errors + 1) es

/-- Runs the text of a source in a frame; the result is the number of errors. -/
def source (eval : Evaluation) (i : FrameId) (source text : String) (echo : Bool) :
    Action Nat :=
  match lexemes text with
  | .error e => do
    report source text (.read e)
    return 1
  | .ok tokens => do
    let read := Reader.all tokens
    let errors ← expressions eval i source text echo 0 (← enter read.1)
    match read.2 with
    | none => return errors
    | some e =>
      report source text (.read e)
      return errors + 1

/-- The value of the last of the expressions, or the first error; `last` if there
are none. -/
def lastValue (eval : Evaluation) (i : FrameId) (last : Value) : List Value → Action Value
  | [] => pure last
  | e :: es => do
    let v ← eval e i
    lastValue eval i v es

/-- Evaluates a whole program, all of which is read before any of it is evaluated. -/
def program (eval : Evaluation) (i : FrameId) (text : String) :
    Action (Except RunError Value) :=
  match readProgram text with
  | .error e => return .error (.read e)
  | .ok es => do
    let result ← (lastValue eval i (.okay .none) (← enter es)).attempt
    return result.mapError .eval

end Run

end DualScope
