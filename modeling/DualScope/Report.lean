import DualScope.State
import DualScope.Text.Place

/-!
# Reports of errors

A report says what went wrong, points at a range of the text, and puts a remark
there. An error may come from a part of the program that was read from another
text; its span then need not fit, and the report points at the end of the text.

The range is one of bytes, but whoever draws a report takes the two numbers for
those of characters, as the place below does: for plain text there is no difference.
-/

namespace DualScope

structure Report where
  message : String
  range : Span
  label : String
deriving DecidableEq

namespace Report

/-- The range for an error with the given span. -/
def rangeIn (text : String) (span : Option Span) : Span :=
  let size := text.utf8ByteSize
  match span with
  | some s => if s.stop ≤ size then s else ⟨size, size⟩
  | none => ⟨size, size⟩

def evalLabel : EvalError → String
  | .unbound .. => "not defined in this scope"
  | .badTarget target => "only symbols can be bound, found a " ++ target.kind.name
  | .argumentCount expected found _ =>
    "takes " ++ toString expected ++ " arguments, given " ++ toString found
  | .malformed _ => "expected a proper list"
  | .badForm .. => "in this form"
  | .badDefinition target =>
    "expected a symbol or (name formals...), found a " ++ target.kind.name
  | .badElse .. => "this clause"
  | .duplicateFormal .. => "already a parameter"
  | .badFormal _ => "parameters must be symbols"
  | .notCallable callee _ => "this evaluates to a " ++ callee.kind.name
  | .primitive _ fault _ => fault.message
  | .missingExpression | .tooDeep _ => "while evaluating this input"

/-- The message of a report leaves to the label what a primitive complains of. -/
def evalMessage : EvalError → String
  | .primitive p _ _ => "error in primitive '" ++ p.name ++ "'"
  | e => e.message

def readLabel : ReadError → String
  | .unexpected _ wanted | .unfinished wanted => "expected " ++ wanted.text
  | .lexical e => e.fault.message
  | .misplacedDot _ => "a dot must sit between the last two elements"

def readMessage : ReadError → String
  | .lexical _ => "could not read input"
  | e => e.message

/-- The report of an error against a text. -/
def of (text : String) : RunError → Report
  | .eval e => ⟨evalMessage e, rangeIn text e.span?, evalLabel e⟩
  | .read e =>
    let range :=
      match e.span? with
      | some span => span
      | none => rangeIn text none
    ⟨readMessage e, range, readLabel e⟩

/-- Whether the range can be drawn in a text of `n` characters. -/
def isDrawable (r : Report) (n : Nat) : Bool :=
  r.range.start ≤ n && !(r.range.start < r.range.stop && n < r.range.stop - 1)

/-- Where a report against the text is drawn, if it can be. -/
def place? (r : Report) (text : String) : Option Text.Place :=
  if r.isDrawable text.length then some (Text.place text.toList r.range.start) else none

/-- The remark that is drawn there: none for a range that goes one character beyond
the text. -/
def label? (r : Report) (text : String) : Option String :=
  let n := text.length
  if !r.isDrawable n || (r.range.start < r.range.stop && r.range.stop = n + 1) then none
  else some r.label

end Report

end DualScope
