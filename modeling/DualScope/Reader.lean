import DualScope.Token.Lexer
import DualScope.Value

/-!
# From tokens to values

The reader goes over the tokens once, one at a time, and keeps the forms that it
is in the middle of on a stack: a list with the elements read so far, a list
behind its dot, a quote mark that waits for what it quotes. A token opens a form,
closes one, or is a value of its own; a value completes every quote mark that
waits for it and goes into the list that is then on top.

A text may hold any number of expressions. Reading them all yields those before
the first fault even when there is one, since a session runs them all the same.
-/

namespace DualScope

/-- What the reader would have gone on with. -/
inductive Wanted
  | expression
  | closing
  | tail
  | closingAfterTail
  | nothing
deriving DecidableEq

def Wanted.text : Wanted → String
  | .expression => "an expression"
  | .closing => "')'"
  | .tail => "an expression after '.'"
  | .closingAfterTail => "')' after dotted tail"
  | .nothing => "end of input"

/-- Why a text cannot be read. -/
inductive ReadError
  | lexical (e : LexError)
  | unexpected (found : Token) (wanted : Wanted)
  | unfinished (wanted : Wanted)
  | misplacedDot (span : Span)
deriving DecidableEq

def ReadError.message : ReadError → String
  | .lexical e => e.fault.message
  | .unexpected found wanted =>
    "unexpected token " ++ found.text ++ ", expected " ++ wanted.text
  | .unfinished wanted => "unexpected end of input, expected " ++ wanted.text
  | .misplacedDot span => "invalid dotted pair syntax at " ++ span.text

/-- Where in the text the fault is, unless it is at the end. -/
def ReadError.span? : ReadError → Option Span
  | .lexical e => some e.span
  | .unexpected found _ => some found.span
  | .unfinished _ => none
  | .misplacedDot span => some span

namespace Reader

/-! ## Forms in the making -/

/-- A form that waits for a value; the elements of a list are kept last first. -/
inductive Open
  | quote (mark : Span)
  | list (bracket : Span) (items : List Value)
  | dotted (bracket : Span) (items : List Value) (dot : Span)
deriving DecidableEq

/-- Where in an expression the reader is: at a place where a value may start, or
behind the tail of a dotted list, where only its closing bracket can follow. -/
inductive Reading
  | expecting (forms : List Open)
  | closing (bracket : Span) (items : List Value) (tail : Value) (forms : List Open)
deriving DecidableEq

inductive Progress
  | complete (v : Value)
  | reading (r : Reading)
deriving DecidableEq

/-- The start of an expression. -/
def start : Reading := .expecting []

/-- What is missing where the text ends. -/
def Reading.wanted : Reading → Wanted
  | .closing .. => .closingAfterTail
  | .expecting (.list .. :: _) => .closing
  | .expecting (.dotted .. :: _) => .tail
  | .expecting (.quote _ :: _) => .expression
  | .expecting [] => .expression

/-- `(quote v)`, as a quote mark before `v` stands for. -/
def quotation (mark : Span) (v : Value) : Value :=
  let span := mark.merge v.span
  .pair .anonymous (.symbol "quote" mark) (.pair .anonymous v (.nil span) span) span

/-- The chain of the items, last first, that ends in `tail`. Each pair covers the
text from its first part to the closing bracket. -/
def chain (stop : Nat) (tail : Value) (items : List Value) : Value :=
  items.foldl (fun cdr car => .pair .anonymous car cdr ⟨car.span.start, stop⟩) tail

/-- A bracketed list; it covers its brackets. -/
def closeList (bracket : Span) (items : List Value) (tail : Value) (close : Span) : Value :=
  if items.isEmpty then .nil (bracket.merge close)
  else (chain close.stop tail items).withSpan (bracket.merge close)

/-- Hands a value to the form that waits for it. -/
def deliver (v : Value) : List Open → Progress
  | [] => .complete v
  | .quote mark :: forms => deliver (quotation mark v) forms
  | .list bracket items :: forms => .reading (.expecting (.list bracket (v :: items) :: forms))
  | .dotted bracket items _ :: forms => .reading (.closing bracket items v forms)

/-! ## Reading -/

/-- What one token does. -/
def feed (r : Reading) (t : Token) : Except ReadError Progress :=
  match r, t.kind with
  | .closing bracket items tail forms, .closeParen =>
    .ok (deliver (closeList bracket items tail t.span) forms)
  | .closing .., _ => .error (.unexpected t .closingAfterTail)
  | .expecting (.list bracket items :: forms), .closeParen =>
    .ok (deliver (closeList bracket items (.nil t.span) t.span) forms)
  | .expecting (.dotted _ _ dot :: _), .closeParen => .error (.misplacedDot dot)
  | .expecting _, .closeParen => .error (.unexpected t .expression)
  | .expecting (.list bracket (item :: items) :: forms), .dot =>
    .ok (.reading (.expecting (.dotted bracket (item :: items) t.span :: forms)))
  | .expecting _, .dot => .error (.misplacedDot t.span)
  | .expecting forms, .openParen => .ok (.reading (.expecting (.list t.span [] :: forms)))
  | .expecting forms, .quote => .ok (.reading (.expecting (.quote t.span :: forms)))
  | .expecting forms, .symbol name => .ok (deliver (.symbol name t.span) forms)
  | .expecting forms, .number x => .ok (deliver (.number x t.span) forms)
  | .expecting forms, .boolean b => .ok (deliver (.boolean b t.span) forms)
  | .expecting forms, .string s => .ok (deliver (.string s t.span) forms)

/-- The expression that the reader is in, and the tokens behind it. -/
def finish (r : Reading) : List Token → Except ReadError (Value × List Token)
  | [] => .error (.unfinished r.wanted)
  | t :: ts =>
    match feed r t with
    | .error e => .error e
    | .ok (.complete v) => .ok (v, ts)
    | .ok (.reading r) => finish r ts

/-- The first expression, and the tokens behind it. -/
def next (ts : List Token) : Except ReadError (Value × List Token) :=
  finish start ts

/-- The only expression. -/
def single (ts : List Token) : Except ReadError Value :=
  match next ts with
  | .error e => .error e
  | .ok (v, []) => .ok v
  | .ok (_, t :: _) => .error (.unexpected t .nothing)

/-- The expressions behind those read before, last first, and the fault that ends
the reading, if there is one. -/
def collect (before : List Value) (r : Reading) : List Token → List Value × Option ReadError
  | [] => (before.reverse, if r = start then none else some (.unfinished r.wanted))
  | t :: ts =>
    match feed r t with
    | .error e => (before.reverse, some e)
    | .ok (.complete v) => collect (v :: before) start ts
    | .ok (.reading r) => collect before r ts

/-- The expressions before the first fault, and the fault. -/
def all (ts : List Token) : List Value × Option ReadError :=
  collect [] start ts

/-- Every expression, if there is no fault. -/
def program (ts : List Token) : Except ReadError (List Value) :=
  match all ts with
  | (vs, none) => .ok vs
  | (_, some e) => .error e

end Reader

/-! ## Reading texts -/

/-- The tokens of a text, for reading. -/
def lexemes (text : String) : Except ReadError (List Token) :=
  (tokenize text).mapError .lexical

/-- The one expression that a text holds. -/
def readOne (text : String) : Except ReadError Value :=
  lexemes text >>= Reader.single

/-- The expressions that a text holds. -/
def readProgram (text : String) : Except ReadError (List Value) :=
  lexemes text >>= Reader.program

end DualScope
