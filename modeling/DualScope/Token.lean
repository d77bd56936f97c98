import DualScope.Span
import DualScope.Text.Quoted
import DualScope.Number.Positional

/-!
# Tokens

A text of the language is a row of tokens with blanks and comments between them.
A token is what it stands for and where it stands.
-/

namespace DualScope

/-- What a token stands for. -/
inductive Token.Kind
  | openParen
  | closeParen
  | dot
  | quote
  | symbol (name : String)
  | number (value : Float)
  | boolean (value : Bool)
  | string (value : String)
deriving DecidableEq

structure Token where
  kind : Token.Kind
  span : Span
deriving DecidableEq

/-- The text of a truth value. -/
def truthText (b : Bool) : String :=
  if b then "#t" else "#f"

/-- A token as messages show it. -/
def Token.Kind.text : Token.Kind → String
  | .openParen => "("
  | .closeParen => ")"
  | .dot => "."
  | .quote => "'"
  | .symbol name => name
  | .number value => .ofList (Number.text value)
  | .boolean value => truthText value
  | .string value => .ofList (Text.disclosed value.toList)

/-- A token and its place, as messages show them. -/
def Token.text (t : Token) : String :=
  "'" ++ t.kind.text ++ "' at " ++ t.span.text

end DualScope
