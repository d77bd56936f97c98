import DualScope.Error

/-!
# The shape of forms

A form looks at its operands before it evaluates any of them: how many there are,
and whether the formals of a procedure are names that differ from one another.
The first thing wrong from the left is what is reported.
-/

namespace DualScope.Form

/-- Fails unless the value is a proper list of at least `least` and, if there is a
bound, at most `most` elements. -/
def checkLength (operands : Value) (least : Nat) (most : Option Nat) : Except EvalError Unit :=
  match operands.length? with
  | none => .error (.malformed operands)
  | some n =>
    if n < least then .error (.badForm (.tooFew least n) operands.span)
    else
      match most with
      | some bound =>
        if bound < n then .error (.badForm (.tooMany bound n) operands.span) else .ok ()
      | none => .ok ()

/-- Fails unless the formals are a proper list of symbols that differ from one
another and from those seen before. -/
def checkFormalsAfter (seen : List String) : Value → Except EvalError Unit
  | .nil _ => .ok ()
  | .pair _ (.symbol name span) rest _ =>
    if name ∈ seen then .error (.duplicateFormal name span)
    else checkFormalsAfter (name :: seen) rest
  | .pair _ formal _ _ => .error (.badFormal formal)
  | v => .error (.badFormal v)

def checkFormals (formals : Value) : Except EvalError Unit :=
  checkFormalsAfter [] formals

/-- The first part and the rest of a pair. -/
def uncons (operands : Value) : Except EvalError (Value × Value) :=
  match operands with
  | .pair _ car cdr _ => .ok (car, cdr)
  | _ => .error (.malformed operands)

/-- A body as one expression: its only one, or all of them behind `begin`. -/
def bodyExpression (body : Value) : Value :=
  match body with
  | .pair _ only (.nil _) _ => only
  | _ => .pair .anonymous (.symbol "begin" body.span) body body.span

/-- The formals and the body of a procedure, from the operands of the form that
makes it. -/
def procedureParts (operands : Value) : Except EvalError (Value × Value) := do
  checkLength operands 2 none
  let (formals, body) ← uncons operands
  checkFormals formals
  return (formals, bodyExpression body)

end DualScope.Form
