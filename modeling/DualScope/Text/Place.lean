/-!
# Lines and columns

A line ends after a line feed, a carriage return that no line feed follows, and a
few characters more that Unicode counts as line ends. The end of a line belongs to
it, and a text that closes with one has no empty line behind it.
-/

namespace DualScope.Text

/-- The line and the column of a character, both counted from one. -/
structure Place where
  line : Nat
  column : Nat
deriving DecidableEq

def Place.first : Place := ⟨1, 1⟩

/-- The characters that end a line by themselves. -/
def lineEnds : List Char :=
  ['\n', '\x0b', '\x0c', '\u0085', '\u2028', '\u2029']

/-- Whether the line is over behind the character, given the text that follows. -/
def endsLine (c : Char) (rest : List Char) : Bool :=
  if c = '\r' then rest.head? != some '\n' else lineEnds.contains c

/-- The place that is `offset` characters behind `here`, where the text goes on. -/
def placeFrom (here : Place) : Nat → List Char → Place
  | 0, _ => here
  | _, [] => here
  | offset + 1, c :: rest =>
    let moved : Place :=
      if endsLine c rest && !rest.isEmpty then ⟨here.line + 1, 1⟩
      else ⟨here.line, here.column + 1⟩
    placeFrom moved offset rest

/-- The place of the character with the given number in a text. -/
def place (cs : List Char) (offset : Nat) : Place :=
  placeFrom .first offset cs

end DualScope.Text
