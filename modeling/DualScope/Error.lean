import DualScope.File
import DualScope.Value.Printer

/-!
# What can go wrong in an evaluation

An error says what was wrong and with which values, and where in the text. Its
words are found from that alone, in one place for each kind of error.
-/

namespace DualScope

/-! ## Calls of primitives -/

/-- How many arguments a primitive takes. -/
inductive Arity
  | exactly (n : Nat)
  | atLeast (n : Nat)
  | between (least most : Nat)
deriving DecidableEq

def Arity.accepts : Arity → Nat → Bool
  | .exactly n, k => k == n
  | .atLeast n, k => n ≤ k
  | .between least most, k => least ≤ k && k ≤ most

def Arity.text : Arity → String
  | .exactly n => "exactly " ++ toString n
  | .atLeast n => "at least " ++ toString n
  | .between least most => "between " ++ toString least ++ " and " ++ toString most

/-- What a primitive asks of an argument. -/
inductive Demand
  | number | pair | list | name
deriving DecidableEq

def Demand.text : Demand → String
  | .number => "number"
  | .pair => "pair"
  | .list => "list"
  | .name => "string or symbol"

/-- Why a primitive cannot do its work; positions of arguments count from zero. -/
inductive Fault
  | arity (expected : Arity) (found : Nat)
  | wrongType (position : Nat) (expected : Demand) (found : Kind)
  | divisionByZero
  | cannotLoad (name : String) (why : FileError)
deriving DecidableEq

def Fault.message : Fault → String
  | .arity expected found =>
    "wrong number of arguments: expected " ++ expected.text ++ ", got " ++ toString found
  | .wrongType position expected found =>
    "argument " ++ toString (position + 1) ++ " must be a " ++ expected.text
      ++ ", got " ++ found.name
  | .divisionByZero => "division by zero"
  | .cannotLoad name why => "cannot load " ++ name ++ ": " ++ why.message

/-! ## Forms -/

/-- What is wrong with the operands of a form. -/
inductive FormFault
  | tooFew (least found : Nat)
  | tooMany (most found : Nat)
  | badBindings (bindings : Value)
  | noBody
deriving DecidableEq

def FormFault.message : FormFault → String
  | .tooFew least found =>
    "too few operands in form (expected at least " ++ toString least ++ ", got "
      ++ toString found ++ ")"
  | .tooMany most found =>
    "too many operands in form (expected at most " ++ toString most ++ ", got "
      ++ toString found ++ ")"
  | .badBindings bindings => "bad bindings list in let form: " ++ bindings.text
  | .noBody => "let form has no body"

/-- What is wrong with an `else` clause. -/
inductive ElseFault
  | notLast
  | empty
deriving DecidableEq

def ElseFault.message : ElseFault → String
  | .notLast => "else must be the last clause"
  | .empty => "else clause needs at least one expression"

/-! ## Evaluations -/

/-- Why an expression has no value. An error about a part of the program is placed
by the span of that part. -/
inductive EvalError
  | unbound (name : String) (span : Span)
  | badTarget (target : Value)
  | argumentCount (expected found : Nat) (span : Span)
  | missingExpression
  | malformed (expr : Value)
  | badForm (fault : FormFault) (span : Span)
  | badDefinition (target : Value)
  | badElse (fault : ElseFault) (span : Span)
  | duplicateFormal (name : String) (span : Span)
  | badFormal (formal : Value)
  | notCallable (callee : Value) (span : Span)
  | primitive (p : Primitive) (fault : Fault) (span : Span)
  | tooDeep (limit : Nat)
deriving DecidableEq

namespace EvalError

def message : EvalError → String
  | .unbound name _ => "unknown identifier: " ++ name
  | .badTarget target => "bad variable name: " ++ target.text
  | .argumentCount expected found _ =>
    "parameter mismatch: expected " ++ toString expected ++ " arguments, got " ++ toString found
  | .missingExpression => "cannot evaluate an undefined expression"
  | .malformed expr => "malformed list: " ++ expr.text
  | .badForm fault _ => "invalid special form: " ++ fault.message
  | .badDefinition target => "bad argument to define: " ++ target.text
  | .badElse fault _ => "malformed else clause: " ++ fault.message
  | .duplicateFormal name _ => "duplicate formal parameter '" ++ name ++ "'"
  | .badFormal formal => "formal parameter " ++ formal.text ++ " is not valid"
  | .notCallable callee _ => "cannot call " ++ callee.text
  | .primitive p fault _ => "error in primitive '" ++ p.name ++ "': " ++ fault.message
  | .tooDeep limit =>
    "maximum recursion depth exceeded (" ++ toString limit ++ " nested evaluations)"

/-- Where in the text the error is, if anywhere. -/
def span? : EvalError → Option Span
  | .unbound _ span | .argumentCount _ _ span | .badForm _ span | .badElse _ span
  | .duplicateFormal _ span | .notCallable _ span | .primitive _ _ span => some span
  | .badTarget v | .malformed v | .badDefinition v | .badFormal v => some v.span
  | .missingExpression | .tooDeep _ => none

end EvalError

end DualScope
