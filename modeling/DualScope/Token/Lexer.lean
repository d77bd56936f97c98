import DualScope.Token
import DualScope.Text.Bytes
import DualScope.Text.Pictograph
import DualScope.Number.Numeral

/-!
# From characters to tokens

Each step takes the longest run of characters that can be one token. Brackets and
the quote mark stand for themselves, a string runs to its closing quote, and all
else is a run of symbol characters, which is a dot, a truth value, a number or a
symbol as a whole: never does a part of a run become a token.

The first character that no token starts with, and the first string that cannot
be read, end the splitting with an error. A numeral broken off behind the mark
of its exponent is a symbol like any other run, unless the character that follows
starts with the same byte as some pictograph and yet stands in no symbol: then the
numeral is the fault.
-/

namespace DualScope

/-- Why a text cannot be split into tokens. -/
inductive LexFault
  | unterminatedString
  | brokenNumeral (text : String)
  | unknownEscape (c : Char)
  | invalidToken
deriving DecidableEq

structure LexError where
  fault : LexFault
  span : Span
deriving DecidableEq

def LexFault.message : LexFault → String
  | .unterminatedString => "unterminated string literal"
  | .brokenNumeral text => "invalid number format: '" ++ text ++ "'"
  | .unknownEscape c => "unknown escape sequence: '\\" ++ .singleton c ++ "'"
  | .invalidToken => "invalid token"

namespace Lexer

/-! ## Classes of characters -/

/-- The blanks of a text. -/
def isBlank (c : Char) : Bool :=
  c = ' ' || c = '\t' || c = '\n' || c = '\r'

/-- Whether the character goes on with a comment. -/
def inComment (c : Char) : Bool :=
  c ≠ '\n' && c ≠ '\r'

/-- The signs that can stand in a symbol beside letters and digits. -/
def signs : List Char :=
  ['.', '!', '#', '$', '%', '&', '*', '/', ':', '<', '=', '>', '?', '~', '_', '^', '+', '-']

/-- Whether the character can stand in a symbol. -/
def inSymbol (c : Char) : Bool :=
  c.isAlphanum || signs.contains c || Text.isPictograph c

/-! ## String literals -/

/-- The characters of a literal behind its opening quote, and those that follow
it. The literal ends with the first quote that no backslash precedes, with a
backslash that has no character to stand for, or with the text. -/
def literal (taken : List Char) : List Char → List Char × List Char
  | [] => (taken.reverse, [])
  | '"' :: cs => (('"' :: taken).reverse, cs)
  | ['\\'] => (('\\' :: taken).reverse, [])
  | '\\' :: '\n' :: cs => (('\\' :: taken).reverse, '\n' :: cs)
  | '\\' :: c :: cs => literal (c :: '\\' :: taken) cs
  | c :: cs => literal (c :: taken) cs

/-- The character that an escape stands for. -/
def unescape? : Char → Option Char
  | 'n' => some '\n'
  | 'r' => some '\r'
  | 't' => some '\t'
  | '\\' => some '\\'
  | '"' => some '"'
  | _ => none

/-- The text that the characters between the quotes stand for. -/
def contents (taken : List Char) : List Char → Except LexFault (List Char)
  | [] => .ok taken.reverse
  | ['\\'] => .error .unterminatedString
  | '\\' :: c :: cs =>
    match unescape? c with
    | some d => contents (d :: taken) cs
    | none => .error (.unknownEscape c)
  | c :: cs => contents (c :: taken) cs

/-- The string that a literal stands for, given what `literal` found of it. -/
def readLiteral (body : List Char) : Except LexFault Token.Kind :=
  if body.getLast? = some '"' then
    (contents [] body.dropLast).map fun cs => .string (.ofList cs)
  else .error .unterminatedString

/-! ## Runs of symbol characters -/

/-- The token that a run of symbol characters is. -/
def classify (run : List Char) : Token.Kind :=
  if run = ['.'] then .dot
  else if run = ['#', 't'] then .boolean true
  else if run = ['#', 'f'] then .boolean false
  else
    match Number.Numeral.parse? run with
    | some n => .number n.toFloat
    | none => .symbol (.ofList run)

/-- The token that a run of symbol characters is where `rest` follows it: none, if
it is a numeral broken off before a character that opens like a pictograph. -/
def readRun (run rest : List Char) : Except LexFault Token.Kind :=
  if Number.Numeral.isBrokenOff run && rest.head?.any Text.opensLikePictograph then
    .error (.brokenNumeral (.ofList run))
  else .ok (classify run)

/-! ## Splitting -/

/-- The token that starts with `c`, its characters, and those that follow it. -/
def munch (c : Char) (cs : List Char) : Except LexFault Token.Kind × List Char × List Char :=
  if c = '(' then (.ok .openParen, [c], cs)
  else if c = ')' then (.ok .closeParen, [c], cs)
  else if c = '\'' then (.ok .quote, [c], cs)
  else if c = '"' then
    let l := literal [] cs
    (readLiteral l.1, c :: l.1, l.2)
  else if inSymbol c then
    let run := c :: cs.takeWhile inSymbol
    let rest := cs.dropWhile inSymbol
    (readRun run rest, run, rest)
  else (.error .invalidToken, [c], cs)

theorem length_literal_le (cs taken : List Char) :
    (literal taken cs).2.length ≤ cs.length := by
  fun_induction literal taken cs <;> simp_all <;> omega

theorem length_dropWhile_le (p : Char → Bool) (cs : List Char) :
    (cs.dropWhile p).length ≤ cs.length :=
  (List.dropWhile_suffix p).length_le

/-- A token takes at least the character it starts with. -/
theorem length_munch_le (c : Char) (cs : List Char) :
    (munch c cs).2.2.length ≤ cs.length := by
  unfold munch
  repeat' split
  · exact Nat.le_refl _
  · exact Nat.le_refl _
  · exact Nat.le_refl _
  · exact length_literal_le cs []
  · exact length_dropWhile_le inSymbol cs
  · exact Nat.le_refl _

/-- The tokens of `cs`, which starts at byte `pos`, behind those already found. -/
def split (found : List Token) (pos : Nat) (cs : List Char) : Except LexError (List Token) :=
  match cs with
  | [] => .ok found.reverse
  | c :: cs =>
    if isBlank c then split found (pos + c.utf8Size) cs
    else if c = ';' then
      split found (pos + Text.bytes (c :: cs.takeWhile inComment)) (cs.dropWhile inComment)
    else
      let next := munch c cs
      let span : Span := ⟨pos, pos + Text.bytes next.2.1⟩
      match next.1 with
      | .ok kind => split (⟨kind, span⟩ :: found) span.stop next.2.2
      | .error fault => .error ⟨fault, span⟩
termination_by cs.length
decreasing_by
  · simp
  · have := length_dropWhile_le inComment cs
    simp only [List.length_cons]
    omega
  · have := length_munch_le c cs
    simp only [List.length_cons]
    omega

end Lexer

/-- The tokens of a text, or the first fault in it. -/
def tokenize (text : String) : Except LexError (List Token) :=
  Lexer.split [] 0 text.toList

end DualScope
