import DualScope.Prompt.Brackets

/-!
# Inputs of more than one line

An input ends with the first line that closes every bracket and string of it. A line
that leaves something open is followed by the next one, line end and all. A closing
bracket too many is complained about, and the next line goes on where the refused one
stopped, without the line end.
-/

namespace DualScope.Prompt

/-- The text without its line end, and the line end. -/
def chomp (text : List Char) : List Char × List Char :=
  match text.reverse with
  | '\n' :: '\r' :: cs => (cs.reverse, ['\r', '\n'])
  | '\n' :: cs => (cs.reverse, ['\n'])
  | _ => (text, [])

/-- What becomes of an input when a line is added to it. -/
inductive Turn
  | submit (input : List Char)
  | wait (input : List Char)
  | refuse (input : List Char) (unmatched : Nat)
deriving DecidableEq

/-- Adds a line, with its line end if it has one, to what was typed before. -/
def receive (typed line : List Char) : Turn :=
  let (input, ending) := chomp (typed ++ line)
  match Verdict.of input with
  | .valid => .submit input
  | .incomplete => .wait (input ++ ending)
  | .invalid unmatched => .refuse input unmatched

/-- The lines of a text with their line ends, behind those found before; `line` is
the start of the next one, last character first. -/
def linesAfter (found : List (List Char)) (line : List Char) : List Char → List (List Char)
  | [] => (if line.isEmpty then found else line.reverse :: found).reverse
  | '\n' :: cs => linesAfter (('\n' :: line).reverse :: found) [] cs
  | c :: cs => linesAfter found (c :: line) cs

def lines (text : List Char) : List (List Char) :=
  linesAfter [] [] text

end DualScope.Prompt
