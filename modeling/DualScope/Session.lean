import DualScope.Eval
import DualScope.Report

/-!
# Sessions

A session is a state whose first frame is global and binds the primitives. What is
typed in or loaded runs in that frame, from the outermost level.
-/

namespace DualScope.Session

/-- A new session. -/
def start (files : Files) : State :=
  (State.initial files).push Frame.global

/-- The global frame of a session. -/
def root : FrameId := 0

section

variable (s : Settings) (budget : Nat)

/-- Evaluation from the outermost level. -/
def eval : Evaluation :=
  Eval.nested s budget 0

/-- The value of the last expression of a text, all of which is read first. -/
def evalText (text : String) : Action (Except RunError Value) :=
  Run.program (eval s budget) root text

/-- Runs the text of a source; the result is the number of errors, which are
reported. -/
def runSource (source text : String) (echo : Bool) : Action Nat :=
  Run.source (eval s budget) root source text echo

/-- Calls a procedure from frame `i` with a list of arguments. -/
def apply (i : FrameId) (callee args : Value) : Action Value := do
  match ← Eval.apply (eval s budget) i args callee callee.span with
  | .done v => return v
  | .eval e frame => eval s budget e frame

/-- Takes up a datum that was read from a text. -/
def enter (v : Value) : Action Value := fun σ =>
  .value (v.stamp σ.texts 0 0).1 { σ with texts := σ.texts + 1 }

/-- The names that a program can use in the global frame. -/
def names (σ : State) : List String :=
  σ.frames.names root

end

end DualScope.Session
