import DualScope.Text.Hidden

/-!
# Quoted text

Strings are written between double quotes in two ways. Data is written so that
the reader takes it back: only the quote, the backslash and the three line
controls are escaped. Messages about tokens write a string so that a person can
tell its characters apart: what does not show is written by number as well.
-/

namespace DualScope.Text

/-- The escape that the two ways of writing share, if the character has one. -/
def escape? : Char → Option Char
  | '"' => some '"'
  | '\\' => some '\\'
  | '\n' => some 'n'
  | '\r' => some 'r'
  | '\t' => some 't'
  | _ => none

/-- A character as it stands in written data. -/
def escaped (c : Char) : List Char :=
  match escape? c with
  | some e => ['\\', e]
  | none => [c]

/-- Text as it is written as data, between double quotes. -/
def quoted (cs : List Char) : List Char :=
  '"' :: (cs.flatMap escaped ++ ['"'])

/-- A character as it stands in a message: one that does not show is given by
its number in lower-case hexadecimal. -/
def revealed (c : Char) : List Char :=
  match escape? c with
  | some e => ['\\', e]
  | none =>
    if c = '\x00' then ['\\', '0']
    else if isHidden c then "\\u\x7b".toList ++ Nat.toDigits 16 c.toNat ++ ['\x7d']
    else [c]

/-- Text as it is quoted in a message. -/
def disclosed (cs : List Char) : List Char :=
  '"' :: (cs.flatMap revealed ++ ['"'])

end DualScope.Text
