import DualScope.Value
import DualScope.Token

/-!
# The text of values

Data is written the way it is read, a chain of pairs as a list in brackets with a
dot before an ending that is not the empty list. A closure is written as the form
that makes it, without its frame: frames usually hold the closures made in them.

Values can be nested deeper than any stack, so the printer keeps what is still to
be written in a list.
-/

namespace DualScope.Value

/-- Something still to be written: plain text, a value, or the rest of a chain of
pairs whose opening bracket and first elements are written. -/
inductive Piece
  | text (s : String)
  | value (v : Value)
  | rest (v : Value)

/-- A bound on the steps that it takes to write the piece. -/
def Piece.weight : Piece → Nat
  | .text _ => 1
  | .value v => 4 * v.size
  | .rest v => 4 * v.size + 2

/-- A bound on the steps that it takes to write all the pieces. -/
def Piece.weights (ps : List Piece) : Nat :=
  ps.foldr (fun p n => p.weight + n) 0

@[simp] theorem Piece.weights_cons (p : Piece) (ps : List Piece) :
    weights (p :: ps) = p.weight + weights ps := rfl

/-- The text of a value that has no parts. -/
def atomText : Value → String
  | .symbol name _ => name
  | .number x _ => .ofList (Number.text x)
  | .boolean b _ => truthText b
  | .string s _ => .ofList (Text.quoted s.toList)
  | .nil _ => "()"
  | .okay _ => "okay"
  | .primitive p _ => "#<primitive:" ++ p.name ++ ">"
  | _ => ""

/-- Writes the pieces behind the text written so far. -/
def write (written : String) : List Piece → String
  | [] => written
  | .text s :: ps => write (written ++ s) ps
  | .value (.pair _ car cdr _) :: ps => write (written ++ "(") (.value car :: .rest cdr :: ps)
  | .value (.lambda _ formals body _ _) :: ps =>
    write (written ++ "(lambda ") (.value formals :: .text " " :: .value body :: .text ")" :: ps)
  | .value (.mu _ formals body _) :: ps =>
    write (written ++ "(mu ") (.value formals :: .text " " :: .value body :: .text ")" :: ps)
  | .value v :: ps => write (written ++ v.atomText) ps
  | .rest (.pair _ car cdr _) :: ps => write (written ++ " ") (.value car :: .rest cdr :: ps)
  | .rest (.nil _) :: ps => write (written ++ ")") ps
  | .rest v :: ps => write (written ++ " . ") (.value v :: .text ")" :: ps)
termination_by ps => Piece.weights ps
decreasing_by
  all_goals simp only [Piece.weights_cons, Piece.weight, size]
  any_goals omega
  have := size_pos v
  omega

/-- The text of a value. -/
def text (v : Value) : String :=
  write "" [.value v]

/-- The text that shows a value to a person: a string stands for itself. -/
def shown : Value → String
  | .string s _ => s
  | v => v.text

/-- A procedure with a word for its kind. -/
def procedureText : Value → String
  | .primitive p _ => "Primitive(" ++ p.name ++ ")"
  | .lambda _ formals body _ _ => "Lambda(" ++ formals.text ++ ", " ++ body.text ++ ")"
  | .mu _ formals body _ => "Mu(" ++ formals.text ++ ", " ++ body.text ++ ")"
  | _ => ""

end DualScope.Value
