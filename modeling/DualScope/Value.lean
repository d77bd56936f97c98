import DualScope.Kind
import DualScope.Primitive
import DualScope.Span

/-!
# Values

Programs and data are of one type: what the reader returns is what the evaluator
walks over, and what a quoted part of it evaluates to. Every value carries the
span it was read from, or that of the call that made it.

Pairs and closures have an identity as well. It is what tells two pairs of equal
contents apart, and it is a plain number, so that a value is finite data and not
a place in a memory: pairs cannot be changed, and a closure names the frame it
was made in by its number.
-/

namespace DualScope

/-- The number of a frame in the order in which frames are made. -/
abbrev FrameId := Nat

/-- What tells values of equal contents apart: whether the value was read from a
text, and then which text and which place in it, or made by a program. Pairs that
no program can get hold of are anonymous. -/
inductive Identity
  | anonymous
  | read (text index : Nat)
  | made (index : Nat)
deriving DecidableEq

inductive Value
  | symbol (name : String) (span : Span)
  | number (x : Float) (span : Span)
  | boolean (b : Bool) (span : Span)
  | string (s : String) (span : Span)
  | nil (span : Span)
  /-- What forms and primitives return that have no useful value. -/
  | okay (span : Span)
  | pair (id : Identity) (car cdr : Value) (span : Span)
  | primitive (p : Primitive) (span : Span)
  /-- A procedure whose free names are looked up in `frame`. -/
  | lambda (id : Identity) (formals body : Value) (frame : FrameId) (span : Span)
  /-- A procedure whose free names are looked up in the frame of each call. -/
  | mu (id : Identity) (formals body : Value) (span : Span)
deriving DecidableEq

instance : Inhabited Value := ⟨.nil .none⟩

namespace Value

def span : Value → Span
  | .symbol _ s | .number _ s | .boolean _ s | .string _ s | .nil s | .okay s
  | .pair _ _ _ s | .primitive _ s | .lambda _ _ _ _ s | .mu _ _ _ s => s

/-- The same value with another span on its outermost node. -/
def withSpan (s : Span) : Value → Value
  | .symbol name _ => .symbol name s
  | .number x _ => .number x s
  | .boolean b _ => .boolean b s
  | .string t _ => .string t s
  | .nil _ => .nil s
  | .okay _ => .okay s
  | .pair id car cdr _ => .pair id car cdr s
  | .primitive p _ => .primitive p s
  | .lambda id formals body frame _ => .lambda id formals body frame s
  | .mu id formals body _ => .mu id formals body s

def kind : Value → Kind
  | .symbol .. => .symbol
  | .number .. => .number
  | .boolean .. => .boolean
  | .string .. => .string
  | .nil .. => .nil
  | .okay .. => .okay
  | .pair .. => .pair
  | .primitive .. | .lambda .. | .mu .. => .procedure

/-- The number of nodes. -/
def size : Value → Nat
  | .pair _ car cdr _ => car.size + cdr.size + 1
  | .lambda _ formals body _ _ | .mu _ formals body _ => formals.size + body.size + 1
  | _ => 1

theorem size_pos (v : Value) : 0 < v.size := by
  cases v <;> simp [size]

/-- The number of nodes of all the values. -/
def sizes (vs : List Value) : Nat :=
  vs.foldr (fun v n => v.size + n) 0

@[simp] theorem sizes_nil : sizes [] = 0 := rfl

@[simp] theorem sizes_cons (v : Value) (vs : List Value) : sizes (v :: vs) = v.size + sizes vs :=
  rfl

/-! ## Looking at values -/

/-- Only the value false is false. -/
def isTrue : Value → Bool
  | .boolean false _ => false
  | _ => true

def isNil : Value → Bool
  | .nil _ => true
  | _ => false

def isOkay : Value → Bool
  | .okay _ => true
  | _ => false

def symbol? : Value → Option String
  | .symbol name _ => some name
  | _ => none

def car? : Value → Option Value
  | .pair _ car _ _ => some car
  | _ => none

def cdr? : Value → Option Value
  | .pair _ _ cdr _ => some cdr
  | _ => none

/-! ## Values as lists

A chain of pairs has elements, however it ends; it is a proper list when it ends
in the empty list. -/

def elementsAfter (before : List Value) : Value → List Value
  | .pair _ car cdr _ => elementsAfter (car :: before) cdr
  | _ => before.reverse

/-- The first parts of the pairs of a chain. -/
def elements (v : Value) : List Value :=
  elementsAfter [] v

/-- What a chain of pairs ends in. -/
def ending : Value → Value
  | .pair _ _ cdr _ => cdr.ending
  | v => v

def isProper (v : Value) : Bool :=
  v.ending.isNil

/-- The elements of a proper list. -/
def list? (v : Value) : Option (List Value) :=
  if v.isProper then some v.elements else none

def length? (v : Value) : Option Nat :=
  v.list?.map List.length

/-- A proper list of the values. The span of each of its pairs covers those of
the elements from there on, and that of the empty list. -/
def ofList (vs : List Value) : Value :=
  vs.foldr (fun v tail => .pair .anonymous v tail (v.span.merge tail.span)) (.nil .none)

/-- The same list with identities for its pairs, numbered from `first` on with the
last pair first. -/
def ofListFrom (first : Nat) (vs : List Value) : Value :=
  (vs.foldr
    (fun v (tail, n) => (.pair (.made n) v tail (v.span.merge tail.span), n + 1))
    (.nil .none, first)).1

@[simp] theorem elementsAfter_eq (before : List Value) (v : Value) :
    elementsAfter before v = before.reverse ++ v.elements := by
  induction v generalizing before with
  | pair id car cdr span _ ih =>
    simp only [elements, elementsAfter]
    rw [ih (car :: before), ih [car]]
    simp
  | _ => simp [elements, elementsAfter]

@[simp] theorem elements_pair (id : Identity) (car cdr : Value) (span : Span) :
    (Value.pair id car cdr span).elements = car :: cdr.elements := by
  rw [elements, elementsAfter, elementsAfter_eq]
  rfl

theorem elements_ofList (vs : List Value) : (ofList vs).elements = vs := by
  induction vs with
  | nil => rfl
  | cons v vs ih =>
    rw [show ofList (v :: vs) = .pair .anonymous v (ofList vs) (v.span.merge (ofList vs).span)
      from rfl, elements_pair, ih]

theorem isProper_ofList (vs : List Value) : (ofList vs).isProper := by
  induction vs with
  | nil => rfl
  | cons v vs ih => exact ih

end Value

end DualScope
