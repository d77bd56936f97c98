import DualScope.Form
import DualScope.Text.Blank

/-!
# Completing names

What stands between the last delimiter and the cursor is the beginning of a name.
It can be completed to every name that begins with it and that can be used: the
names of forms and those that have a meaning in the frame.
-/

namespace DualScope.Prompt

/-- Whether a name cannot go on over the character. -/
def isDelimiter (c : Char) : Bool :=
  Text.isSpace c || c = '(' || c = ')' || c = '\'' || c = '"'

/-- The characters before byte `pos`. -/
def before (pos : Nat) : List Char → List Char
  | [] => []
  | c :: cs => if c.utf8Size ≤ pos then c :: before (pos - c.utf8Size) cs else []

/-- The beginning of a name that ends at byte `pos` of the line. -/
def fragment (line : List Char) (pos : Nat) : List Char :=
  ((before pos line).reverse.takeWhile fun c => !isDelimiter c).reverse

/-- Every name that can be used in the frame, in order and each once. -/
def usable (frames : Frames) (i : FrameId) : List String :=
  (frames.names i ++ Form.all.map Form.name).mergeSort.eraseReps

/-- Where the name that is being typed begins, and what it can be completed to. -/
def complete (frames : Frames) (i : FrameId) (line : List Char) (pos : Nat) :
    Nat × List String :=
  let typed := fragment line pos
  if typed.isEmpty then (pos, [])
  else
    (pos - Text.bytes typed,
      (usable frames i).filter fun name => typed.isPrefixOf name.toList)

end DualScope.Prompt
