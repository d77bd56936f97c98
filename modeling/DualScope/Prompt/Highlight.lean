import DualScope.Prompt.Brackets

/-!
# Colours for a line

Strings are green, unmatched closing brackets are red, and the pair of brackets at
the cursor is blue and bold. A bracket is at the cursor when it is under it or just
before it; of several pairs that are, the one that is closed first is marked.
-/

namespace DualScope.Prompt

/-- How a character is shown. -/
inductive Shade
  | plain
  | string
  | active
  | unmatched
deriving DecidableEq

/-- The sequence that switches a colour on; plain characters need none. -/
def Shade.sequence? : Shade → Option String
  | .plain => none
  | .string => some "\x1b[32m"
  | .active => some "\x1b[1;34m"
  | .unmatched => some "\x1b[31m"

/-- The sequence that ends a colour. -/
def reset : String := "\x1b[0m"

/-- The character in its colour. -/
def Shade.paint (shade : Shade) (c : Char) : String :=
  match shade.sequence? with
  | some sequence => sequence ++ .singleton c ++ reset
  | none => .singleton c

/-- Whether the offset is under the cursor or just before it. -/
def atCursor (cursor offset : Nat) : Bool :=
  offset = cursor || offset + 1 = cursor

/-- The pair of brackets at the cursor. -/
def Brackets.active? (b : Brackets) (cursor : Nat) : Option (Nat × Nat) :=
  b.pairs.find? fun p => atCursor cursor p.1 || atCursor cursor p.2

/-- How the character at the offset is shown. -/
def Brackets.shade (b : Brackets) (active : Option (Nat × Nat)) (offset : Nat) : Shade :=
  if b.strings.any fun s => s.start ≤ offset && offset < s.stop then .string
  else if active.any fun p => offset = p.1 || offset = p.2 then .active
  else if offset ∈ b.unmatched then .unmatched
  else .plain

/-- The characters in their colours behind what is painted already; the first of
them is at the offset. -/
def paint (shade : Nat → Shade) (painted : String) (offset : Nat) : List Char → String
  | [] => painted
  | c :: cs => paint shade (painted ++ (shade offset).paint c) (offset + c.utf8Size) cs

/-- A line in its colours. -/
def highlight (line : List Char) (cursor : Nat) : String :=
  let b := Brackets.of line
  paint (b.shade (b.active? cursor)) "" 0 line

end DualScope.Prompt
