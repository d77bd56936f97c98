import DualScope.Error

/-!
# Frames

A frame binds names to values and hangs below the frame it was made in, its
parent; a frame without a parent is a global one. Frames are numbered in the order
in which they are made, and none is ever taken away: the number of a frame stands
for it for good, in closures and in the frames below it.

A name means the binding of the nearest frame that has one, from the frame where
it is used upwards. A parent is made before its children, so the walk goes to ever
smaller numbers.
-/

namespace DualScope

structure Frame where
  parent : Option FrameId
  bindings : List (String × Value)
deriving DecidableEq

namespace Frame

/-- The bindings with the name bound to the value: in place of its old value, or
behind all others. -/
def insert (name : String) (v : Value) : List (String × Value) → List (String × Value)
  | [] => [(name, v)]
  | (n, w) :: rest => if n = name then (n, v) :: rest else (n, w) :: insert name v rest

def bind (f : Frame) (name : String) (v : Value) : Frame :=
  { f with bindings := insert name v f.bindings }

def find? (f : Frame) (name : String) : Option Value :=
  f.bindings.lookup name

def names (f : Frame) : List String :=
  f.bindings.map Prod.fst

/-- The bindings as they are shown, in order of their texts. -/
def text (f : Frame) : String :=
  let shown := f.bindings.map fun (name, v) => name ++ ": " ++ v.text
  "\x7b" ++ String.intercalate ", " (shown.mergeSort) ++ "\x7d"

theorem lookup_insert (name n : String) (v : Value) (bs : List (String × Value)) :
    (insert name v bs).lookup n = if n = name then some v else bs.lookup n := by
  induction bs with
  | nil =>
    rw [insert, List.lookup_cons]
    by_cases h : n = name
    · simp [h]
    · simp [beq_false_of_ne h, h]
  | cons b bs ih =>
    obtain ⟨m, w⟩ := b
    rw [insert]
    by_cases hm : m = name
    · subst hm
      by_cases h : n = m
      · simp [h]
      · simp [List.lookup_cons, beq_false_of_ne h, h]
    · by_cases h : n = m
      · subst h
        simp [hm]
      · simp [List.lookup_cons, hm, beq_false_of_ne h, ih]

/-- A name that is bound means its new value, and all others mean what they did. -/
theorem find?_bind (f : Frame) (name n : String) (v : Value) :
    (f.bind name v).find? n = if n = name then some v else f.find? n :=
  lookup_insert name n v f.bindings

end Frame

/-- The frames of a session by their numbers. -/
structure Frames where
  array : Array Frame
deriving DecidableEq

namespace Frames

def empty : Frames := ⟨#[]⟩

def size (fs : Frames) : Nat :=
  fs.array.size

def get? (fs : Frames) (i : FrameId) : Option Frame :=
  fs.array[i]?

/-- The frames with a new one, which gets the next number. -/
def push (fs : Frames) (f : Frame) : Frames :=
  ⟨fs.array.push f⟩

/-- Binds the name in the frame itself, whatever the frames above it bind. -/
def bind (fs : Frames) (i : FrameId) (name : String) (v : Value) : Frames :=
  ⟨fs.array.modify i (·.bind name v)⟩

@[simp] theorem size_push (fs : Frames) (f : Frame) : (fs.push f).size = fs.size + 1 :=
  Array.size_push f

@[simp] theorem size_bind (fs : Frames) (i : FrameId) (name : String) (v : Value) :
    (fs.bind i name v).size = fs.size :=
  Array.size_modify

theorem get?_push (fs : Frames) (f : Frame) (i : FrameId) :
    (fs.push f).get? i = if i = fs.size then some f else fs.get? i :=
  Array.getElem?_push

/-- Binding a name changes the frame it is bound in and no other. -/
theorem get?_bind (fs : Frames) (i j : FrameId) (name : String) (v : Value) :
    (fs.bind i name v).get? j =
      if i = j then (fs.get? j).map (·.bind name v) else fs.get? j :=
  Array.getElem?_modify

/-- The binding of the name in the nearest frame from `i` upwards. -/
def lookup (fs : Frames) (name : String) (i : FrameId) : Option Value :=
  match fs.get? i with
  | none => none
  | some f =>
    match f.find? name with
    | some v => some v
    | none =>
      match f.parent with
      | none => none
      | some p => if p < i then fs.lookup name p else none
termination_by i

/-- The frame and those above it, up to a global one. -/
def chain (fs : Frames) (i : FrameId) : List FrameId :=
  match fs.get? i with
  | none => []
  | some f =>
    match f.parent with
    | none => [i]
    | some p => if p < i then i :: fs.chain p else [i]
termination_by i

/-- The frame that ends the chain of `i`. -/
def root (fs : Frames) (i : FrameId) : FrameId :=
  (fs.chain i).getLast?.getD i

/-- The names that have a meaning in the frame, in order and each once. -/
def names (fs : Frames) (i : FrameId) : List String :=
  let all := (fs.chain i).flatMap fun j => ((fs.get? j).map Frame.names).getD []
  all.mergeSort.eraseReps

/-- A frame with those above it, as it is shown. -/
def text (fs : Frames) (i : FrameId) : String :=
  let below := (fs.chain i).filterMap fs.get? |>.filter (·.parent.isSome)
  String.join (below.map fun f => "<" ++ f.text ++ " -> ") ++ "<Global Frame>"
    ++ String.join (below.map fun _ => ">")

end Frames

/-- A frame that binds every primitive to its name. -/
def Frame.global : Frame :=
  ⟨none, Primitive.all.map fun p => (p.name, .primitive p .none)⟩

/-! ## Frames of calls -/

/-- The bindings of the formals to the arguments at the same places, behind those
already made; `none` if one of the two lists is longer or no list. -/
def matchFormals (made : List (String × Value)) :
    Value → Value → Except EvalError (Option (List (String × Value)))
  | .nil _, .nil _ => .ok (some made)
  | .pair _ (.symbol name _) formals _, .pair _ v args _ =>
    matchFormals (Frame.insert name v made) formals args
  | .pair _ target _ _, .pair .. => .error (.badTarget target)
  | _, _ => .ok none

/-- The bindings of a call. -/
def callBindings (formals args : Value) (span : Span) :
    Except EvalError (List (String × Value)) :=
  match matchFormals [] formals args with
  | .error e => .error e
  | .ok (some bindings) => .ok bindings
  | .ok none => .error (.argumentCount formals.elements.length args.elements.length span)

end DualScope
