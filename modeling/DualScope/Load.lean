import DualScope.Run

/-!
# Loading source files

A source file is looked for under the name as it stands and then with the extension
of source files. Where neither can be read, what is wrong with the name as it stands
is what counts. The text runs in the global frame, wherever it is loaded from, and
errors in it are reported and no concern of the one who loads it.
-/

namespace DualScope.Load

/-- The name of a file that a value gives. -/
def fileName? : Value → Option String
  | .string s _ => some s
  | .symbol s _ => some s
  | _ => none

/-- Asks for the text of a file. -/
def request (name : String) : Action (Except FileError String) := fun σ =>
  .value (σ.files name) (σ.emit (.opened name))

/-- The name with the extension of source files. -/
def withExtension (name : String) : String :=
  name ++ ".scm"

/-- The name and the text of a source file. -/
def find (name : String) : Action (Except Fault (String × String)) := do
  match ← request name with
  | .ok text => return .ok (name, text)
  | .error why =>
    match ← request (withExtension name) with
    | .ok text => return .ok (withExtension name, text)
    | .error _ => return .error (.cannotLoad name why)

/-- Runs the source file that the value names in the global frame above `i`. -/
def perform (eval : Evaluation) (i : FrameId) (name : Value) (echo : Bool) :
    Action (Except Fault Unit) := do
  match fileName? name with
  | none => return .error (.wrongType 0 .name name.kind)
  | some name =>
    match ← find name with
    | .error f => return .error f
    | .ok (source, text) =>
      let root ← Action.look (·.frames.root i)
      let _ ← Run.source eval root source text echo
      return .ok ()

end DualScope.Load
