import DualScope.Span
import DualScope.Text.Bytes

/-!
# Brackets of a line

The prompt looks at a line before the reader does: which brackets match, which wait
for their partner, and where the strings are. Brackets in strings and comments do
not count. The line is gone over once, and every bracket, as soon as it is reached,
is put where it belongs: an opening one on the stack of open ones, a closing one
into a pair with the top of that stack or, if there is none, among the unmatched.

All places are byte offsets into the line.
-/

namespace DualScope.Prompt

/-- What is known about a line. -/
structure Brackets where
  /-- Matched brackets, in the order in which they are closed. -/
  pairs : List (Nat × Nat)
  /-- Closing brackets without an opening one. -/
  unmatched : List Nat
  /-- Opening brackets still to be closed. -/
  opened : List Nat
  strings : List Span
  /-- Whether the line ends inside of a string. -/
  inString : Bool
deriving DecidableEq

namespace Brackets

/-- What the scan is in the middle of. -/
inductive Mode
  | code
  | comment
  | string (start : Nat) (escaped : Bool)
deriving DecidableEq

/-- What was found so far, all of it newest first. -/
structure Scan where
  pairs : List (Nat × Nat)
  unmatched : List Nat
  opened : List Nat
  strings : List Span
  mode : Mode
deriving DecidableEq

def Scan.start : Scan := ⟨[], [], [], [], .code⟩

/-- The scan behind the character `c` at byte `i`. -/
def Scan.step (s : Scan) (i : Nat) (c : Char) : Scan :=
  match s.mode with
  | .string start true => { s with mode := .string start false }
  | .string start false =>
    if c = '\\' then { s with mode := .string start true }
    else if c = '"' then { s with mode := .code, strings := ⟨start, i + 1⟩ :: s.strings }
    else s
  | .comment => if c = '\n' then { s with mode := .code } else s
  | .code =>
    if c = '"' then { s with mode := .string i false }
    else if c = ';' then { s with mode := .comment }
    else if c = '(' then { s with opened := i :: s.opened }
    else if c = ')' then
      match s.opened with
      | partner :: rest => { s with opened := rest, pairs := (partner, i) :: s.pairs }
      | [] => { s with unmatched := i :: s.unmatched }
    else s

/-- The scan behind all the characters, the first of which is at byte `i`. -/
def Scan.run (s : Scan) (i : Nat) : List Char → Scan
  | [] => s
  | c :: cs => (s.step i c).run (i + c.utf8Size) cs

/-- Where the string begins that the scan is in the middle of. -/
def Mode.unclosed? : Mode → Option Nat
  | .string start _ => some start
  | _ => none

/-- The findings in the order of the line; a string that is still open runs to the
end of the line. -/
def Scan.finish (s : Scan) (size : Nat) : Brackets :=
  let last : List Span := (s.mode.unclosed?.map fun start => ⟨start, size⟩).toList
  { pairs := s.pairs.reverse
    unmatched := s.unmatched.reverse
    opened := s.opened.reverse
    strings := s.strings.reverse ++ last
    inString := s.mode.unclosed?.isSome }

/-- The brackets of a line. -/
def of (line : List Char) : Brackets :=
  (Scan.start.run 0 line).finish (Text.bytes line)

end Brackets

/-! ## Whether an input is complete -/

/-- What the prompt does with an input: send it off, refuse it, or wait for more. -/
inductive Verdict
  | valid
  | invalid (unmatched : Nat)
  | incomplete
deriving DecidableEq

def Verdict.of (input : List Char) : Verdict :=
  let b := Brackets.of input
  match b.unmatched with
  | position :: _ => .invalid position
  | [] => if b.inString || !b.opened.isEmpty then .incomplete else .valid

/-- The complaint about an input that is refused. -/
def Verdict.complaint (unmatched : Nat) : String :=
  "  - unmatched ')' at position " ++ toString unmatched

end DualScope.Prompt
