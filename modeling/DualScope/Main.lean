import DualScope.Program

/-!
# The interpreter as a command

Everything that the program does is an action on a state in memory. An action says
which files it asked for; if one of them has not been read yet, it is read and the
action done once more from the same state, so that it sees the file. What an action
writes goes out when it is done.
-/

namespace DualScope.Main

/-- More steps than a run can take. -/
def budget : Nat := 1000000000000000000

/-- Whether a code of the system, of either sign, is that of the error. -/
def isCode (error code : UInt32) : Bool :=
  code = error || code = 0 - error

/-- What an error of the system says about a file. -/
def fileError : IO.Error → FileError
  | .noFileOrDirectory .. => .notFound
  | .inappropriateType _ code _ => if isCode 20 code then .notDirectory else .isDirectory
  | e@(.invalidArgument _ code _) =>
    if isCode 36 code then .nameTooLong else .other (toString e)
  | e => .other (toString e)

/-- The text of a file of the system. -/
def readText (name : String) : IO (Except FileError String) := do
  if name.contains '\x00' then
    return .error .nulInName
  try
    let bytes ← IO.FS.readBinFile name
    match String.fromUTF8? bytes with
    | some text => return .ok text
    | none => return .error .notText
  catch e => return .error (fileError e)

/-- The files that have been read. -/
abbrev Known := List (String × Except FileError String)

/-- The answers for the files that have been read. -/
def Known.files (known : Known) : Files := fun name =>
  (known.lookup name).getD (.error .notFound)

/-- The first file that was asked for and has not been read. -/
def Known.missing? (known : Known) (log : List Event) : Option String :=
  log.findSome? fun
    | .opened name => if (known.lookup name).isSome then none else some name
    | _ => none

/-- A report as lines of text. -/
def reportText (source text : String) (e : RunError) : String :=
  let r := Report.of text e
  let place :=
    match r.place? text with
    | some p => " at " ++ source ++ ":" ++ toString p.line ++ ":" ++ toString p.column
    | none => ""
  let label :=
    match r.label? text with
    | some label => " (" ++ label ++ ")"
    | none => ""
  "Error: " ++ r.message ++ place ++ label ++ "\n"

/-- Sends out what an action wrote. -/
def send : Event → IO Unit
  | .wrote text => IO.print text
  | .complained text => IO.eprint text
  | .reported source text e => IO.eprint (reportText source text e)
  | .opened _ => return ()

/-- Does an action, reading the files that it asks for. -/
partial def settle (action : Action α) (known : Known) (σ : State) : IO (α × Known × State) := do
  match action { σ with files := known.files, log := [] } with
  | .value a σ =>
    match known.missing? σ.log with
    | some name => settle action ((name, ← readText name) :: known) σ
    | none =>
      σ.log.reverse.forM send
      (← IO.getStdout).flush
      return (a, known, { σ with log := [] })
  | .error e _ => throw (IO.userError e.message)
  | .cutShort => throw (IO.userError "out of steps")

/-- Takes lines from the standard input until it ends. -/
partial def converse (o : Options) (stdin : IO.FS.Stream) (typed : List Char) (known : Known)
    (σ : State) : IO Unit := do
  let line ← stdin.getLine
  if line.isEmpty then
    return ()
  let (next, known, σ) ← settle (Program.hear o budget typed line.toList) known σ
  match next with
  | some typed => converse o stdin typed known σ
  | none => return ()

/-- Runs the program with the options. -/
def start (o : Options) : IO UInt32 := do
  let (code, known, σ) ← settle (Program.begin o budget) [] (Session.start fun _ => .error .notFound)
  match code with
  | some code => return code.toUInt32
  | none =>
    converse o (← IO.getStdin) [] known σ
    return 0

def usage : String :=
  "usage: muscheme [--load] [--naive] [--max-depth N] [--quiet] [--vi] [--history FILE] [FILE ...]"

end DualScope.Main

open DualScope in
def main (args : List String) : IO UInt32 := do
  match CommandLine.parse args with
  | .run o => Main.start o
  | .version => IO.println Program.version; return 0
  | .help => IO.println Main.usage; return 0
  | .misuse => IO.eprintln Main.usage; return 2
