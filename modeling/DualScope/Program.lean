import DualScope.CommandLine
import DualScope.Prompt.Dialogue
import DualScope.Session
import DualScope.Text.Blank

/-!
# The program

Given files, the program runs them and stops, with an exit code that tells whether
there were errors. Without files, or when told to go on, it greets and then runs what
is typed in until the input ends or says `exit`.
-/

namespace DualScope.Program

/-- The name of the program and its version. -/
def version : String := "muscheme 0.1.0"

section

variable (o : Options) (budget : Nat)

/-- Runs the files in order; the result is the number of errors, with those before. -/
def runFiles (errors : Nat) : List String → Action Nat
  | [] => pure errors
  | name :: names => do
    match ← Load.request name with
    | .error why =>
      Action.complain ("cannot read " ++ name ++ ": " ++ why.message ++ "\n")
      runFiles (errors + 1) names
    | .ok text =>
      let n ← Session.runSource o.settings budget name text false
      runFiles (errors + n) names

/-- The first words at the prompt. -/
def greet : Action Unit := do
  Action.write (version ++ "\n")
  Action.write "Type 'exit' or press Ctrl-D to quit.\n"
  match ← Load.request o.historyFile with
  | .ok _ => return ()
  | .error _ => Action.write "No previous history.\n"

/-- Runs a complete input; the result is whether to go on. -/
def submit (input : List Char) : Action Bool := do
  let input := String.ofList (Text.trim input)
  if input.isEmpty then
    return true
  else if input = "exit" || input = "(exit)" then
    return false
  else
    let _ ← Session.runSource o.settings budget "REPL" input (!o.quiet)
    return true

/-- Takes one more line; the result is what was typed and not submitted, or nothing
if this is the end. -/
def hear (typed line : List Char) : Action (Option (List Char)) := do
  match Prompt.receive typed line with
  | .wait input => return some input
  | .refuse input unmatched =>
    Action.complain (Prompt.Verdict.complaint unmatched)
    return some input
  | .submit input => return if ← submit o budget input then some [] else none

/-- Takes line after line. -/
def converse (typed : List Char) : List (List Char) → Action Unit
  | [] => return ()
  | line :: lines => do
    match ← hear o budget typed line with
    | some typed => converse typed lines
    | none => return ()

/-- What happens before the prompt; the result is the exit code if it does not come
to that. -/
def begin : Action (Option Nat) := do
  let errors ← runFiles o budget 0 o.files
  if !o.files.isEmpty && !o.load then
    return some (if errors = 0 then 0 else 1)
  else
    greet o
    return none

/-- The whole program, given all that will be typed in; the result is the exit
code. -/
def run (input : List Char) : Action Nat := do
  match ← begin o budget with
  | some code => return code
  | none =>
    converse o budget [] (Prompt.lines input)
    return 0

end

end DualScope.Program
