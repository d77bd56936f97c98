import DualScope.Eval

/-!
# The command line

Options and files may come in any order. Each option may be given once; a value
follows its option or is joined to it with an equals sign, and only behind two
dashes on their own can a file name start with one. The arguments are taken from
left to right, and the first that settles what to do has the last word.
-/

namespace DualScope

/-- What the command line asks for. -/
structure Options where
  /-- Source files to run, in order. -/
  files : List String
  /-- Whether to go on with the prompt after the files. -/
  load : Bool
  /-- Whether to evaluate with the recursive strategy. -/
  naive : Bool
  /-- Whether to keep quiet about the values of what is typed in. -/
  quiet : Bool
  vi : Bool
  limit : Option Nat
  history : Option String
deriving DecidableEq

namespace CommandLine

/-- What to do. -/
inductive Request
  | run (o : Options)
  | version
  | help
  | misuse
deriving DecidableEq

/-- Nothing asked for. -/
def none : Options := ⟨[], false, false, false, false, .none, .none⟩

/-- The options with a switch turned on, unless it is on already. -/
def switch? (o : Options) : String → Option Options
  | "load" => if o.load then .none else some { o with load := true }
  | "naive" => if o.naive then .none else some { o with naive := true }
  | "quiet" => if o.quiet then .none else some { o with quiet := true }
  | "vi" => if o.vi then .none else some { o with vi := true }
  | _ => .none

/-- The bound on numbers that can be given. -/
def numberBound : Nat := 18446744073709551616

/-- The number that digits spell, possibly behind a plus sign. -/
def number? (text : String) : Option Nat :=
  let ds := match text.toList with
    | '+' :: ds => ds
    | ds => ds
  if ds.isEmpty || !ds.all Char.isDigit then .none
  else
    let n := Number.Numeral.value 0 ds
    if n < numberBound then some n else .none

/-- The options with a value set, unless it is set already or no such value. -/
def setting? (o : Options) (name value : String) : Option Options :=
  match name with
  | "max-depth" =>
    if o.limit.isSome then .none
    else (number? value).map fun n => { o with limit := some n }
  | "history" =>
    if o.history.isSome || value.isEmpty then .none else some { o with history := some value }
  | _ => .none

/-- Whether an argument is taken for an option and not for a value. -/
def looksLikeOption (arg : String) : Bool :=
  arg.startsWith "-" && arg ≠ "-"

/-- The name and the value of a long option that are joined by an equals sign. -/
def splitValue (cs : List Char) : String × Option String :=
  let name := cs.takeWhile (· ≠ '=')
  match cs.dropWhile (· ≠ '=') with
  | _ :: value => (.ofList name, some (.ofList value))
  | [] => (.ofList name, .none)

/-- A group of options of one letter each. -/
def letters (o : Options) : List Char → Except Request Options
  | [] => .ok o
  | 'V' :: _ => .error .version
  | 'h' :: _ => .error .help
  | c :: cs =>
    let name := if c = 'l' then "load" else if c = 'q' then "quiet" else ""
    match switch? o name with
    | some o => letters o cs
    | .none => .error .misuse

/-- Files behind the mark that ends the options. -/
def onlyFiles (o : Options) (args : List String) : Request :=
  if args.any String.isEmpty then .misuse else .run { o with files := o.files ++ args }

/-- Takes the arguments from left to right. -/
def parseFrom (o : Options) : List String → Request
  | [] => .run o
  | "--" :: args => onlyFiles o args
  | arg :: args =>
    match arg.toList with
    | [] => .misuse
    | '-' :: '-' :: long =>
      match splitValue long with
      | ("version", .none) => .version
      | ("help", .none) => .help
      | (name, some value) =>
        match setting? o name value with
        | some o => parseFrom o args
        | .none => .misuse
      | (name, .none) =>
        match switch? o name, args with
        | some o, args => parseFrom o args
        | .none, [] => .misuse
        | .none, value :: args =>
          if looksLikeOption value then .misuse
          else
            match setting? o name value with
            | some o => parseFrom o args
            | .none => .misuse
    | ['-'] => parseFrom { o with files := o.files ++ [arg] } args
    | '-' :: short =>
      match letters o short with
      | .ok o => parseFrom o args
      | .error request => request
    | _ => parseFrom { o with files := o.files ++ [arg] } args

def parse (args : List String) : Request :=
  parseFrom none args

end CommandLine

namespace Options

def settings (o : Options) : Settings :=
  ⟨if o.naive then .recursive else .tailCall, o.limit.getD Settings.defaultLimit⟩

/-- The file that holds earlier inputs. -/
def historyFile (o : Options) : String :=
  o.history.getD ".muscheme_history"

end Options

end DualScope
