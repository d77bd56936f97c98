import DualScope.Frame
import DualScope.Reader

/-!
# The state of a session

What a program can see and change: the frames, how many identities have been
given out, the files, and a log of everything that went out. The log is kept as
events and not as text, newest first, so that what was written, what was reported
against which text, and whether a file was asked for can be told apart; the words
of a report are found from its event.

An evaluation is an action on the state. It ends with a value or an error, each
with the state it leaves, or it is cut short because the steps it was allowed did
not suffice. The last is no outcome of the language: with enough steps it turns
into one of the others or never ends.
-/

namespace DualScope

/-- An error of a text that a session runs. -/
inductive RunError
  | read (e : ReadError)
  | eval (e : EvalError)
deriving DecidableEq

/-- Something that went out. -/
inductive Event
  /-- Text for the standard output. -/
  | wrote (text : String)
  /-- Text for the standard error, beside the reports. -/
  | complained (text : String)
  /-- A report of an error against the text of a source. -/
  | reported (source text : String) (error : RunError)
  /-- A `load` asked for the file of that name. -/
  | opened (name : String)
deriving DecidableEq

/-- The text of the events that `pick` finds one in, in order; the events are given
newest first. -/
def Event.textOf (pick : Event → Option String) (log : List Event) : String :=
  String.join (log.filterMap pick).reverse

/-- The text that an event writes to the standard output. -/
def Event.output? : Event → Option String
  | .wrote text => some text
  | _ => none

/-- The text that an event writes to the standard error beside the reports. -/
def Event.complaint? : Event → Option String
  | .complained text => some text
  | _ => none

structure State where
  frames : Frames
  /-- The number of identities given to pairs and closures that programs made. -/
  made : Nat
  /-- The number of texts that values were read from. -/
  texts : Nat
  files : Files
  /-- What went out, newest first. -/
  log : List Event

namespace State

/-- A state with no frames. -/
def initial (files : Files) : State :=
  ⟨.empty, 0, 0, files, []⟩

def emit (σ : State) (e : Event) : State :=
  { σ with log := e :: σ.log }

/-- The state with a new frame. -/
def push (σ : State) (f : Frame) : State :=
  { σ with frames := σ.frames.push f }

end State

/-! ## Actions -/

/-- How an evaluation ends. -/
inductive Ending (α : Type)
  | value (a : α) (σ : State)
  | error (e : EvalError) (σ : State)
  /-- The steps allowed did not suffice. -/
  | cutShort

/-- Something that is done to a state. -/
def Action (α : Type) := State → Ending α

namespace Action

@[inline] def pure (a : α) : Action α := fun σ => .value a σ

@[inline] def bind (x : Action α) (f : α → Action β) : Action β := fun σ =>
  match x σ with
  | .value a σ => f a σ
  | .error e σ => .error e σ
  | .cutShort => .cutShort

instance : Monad Action where
  pure := Action.pure
  bind := Action.bind

/-- Ends with an error; what was done before stays done. -/
@[inline] def fail (e : EvalError) : Action α := fun σ => .error e σ

@[inline] def cutShort : Action α := fun _ => .cutShort

/-- Looks at the state. -/
@[inline] def look (f : State → α) : Action α := fun σ => .value (f σ) σ

/-- Changes the state. -/
@[inline] def change (f : State → State) : Action Unit := fun σ => .value () (f σ)

@[inline] def ofExcept : Except EvalError α → Action α
  | .ok a => pure a
  | .error e => fail e

theorem bind_apply (x : Action α) (f : α → Action β) (σ : State) :
    (x >>= f) σ =
      match x σ with
      | .value a σ => f a σ
      | .error e σ => .error e σ
      | .cutShort => .cutShort := rfl

theorem pure_apply (a : α) (σ : State) : (Pure.pure a : Action α) σ = .value a σ := rfl

instance : LawfulMonad Action := LawfulMonad.mk' _
  (fun x => by
    funext σ
    simp only [Functor.map]
    cases h : x σ <;> simp [Action.bind, Action.pure, h])
  (fun _ _ => rfl)
  (fun x f g => by
    funext σ
    simp only [bind_apply]
    cases x σ <;> rfl)

/-- The action with an error as one of its results. -/
def attempt (x : Action α) : Action (Except EvalError α) := fun σ =>
  match x σ with
  | .value a σ => .value (.ok a) σ
  | .error e σ => .value (.error e) σ
  | .cutShort => .cutShort

@[simp] theorem fail_apply (e : EvalError) (σ : State) : (fail e : Action α) σ = .error e σ := rfl

@[simp] theorem look_apply (f : State → α) (σ : State) : look f σ = .value (f σ) σ := rfl

@[simp] theorem change_apply (f : State → State) (σ : State) : change f σ = .value () (f σ) := rfl

theorem attempt_apply (x : Action α) (σ : State) :
    x.attempt σ =
      match x σ with
      | .value a σ => .value (.ok a) σ
      | .error e σ => .value (.error e) σ
      | .cutShort => .cutShort := rfl

/-- A new identity for something that a program made. -/
def freshIdentity : Action Identity := fun σ =>
  .value (.made σ.made) { σ with made := σ.made + 1 }

/-- A new frame; the result is its number. -/
def newFrame (f : Frame) : Action FrameId := fun σ =>
  .value σ.frames.size (σ.push f)

/-- Binds a name in a frame. -/
def bindIn (i : FrameId) (name : String) (v : Value) : Action Unit :=
  change fun σ => { σ with frames := σ.frames.bind i name v }

/-- The value of a name in a frame, for a use of it at `span`. -/
def lookup (i : FrameId) (name : String) (span : Span) : Action Value := fun σ =>
  match σ.frames.lookup name i with
  | some v => .value v σ
  | none => .error (.unbound name span) σ

/-- Writes text to the standard output. -/
def write (text : String) : Action Unit :=
  change (·.emit (.wrote text))

/-- Writes text to the standard error. -/
def complain (text : String) : Action Unit :=
  change (·.emit (.complained text))

/-- Binds the value in the frame to the name that `target` is. -/
def define (i : FrameId) (target v : Value) : Action Unit :=
  match target.symbol? with
  | some name => bindIn i name v
  | none => fail (.badTarget target)

/-- The frame of a call below `parent`. -/
def callFrame (parent : FrameId) (formals args : Value) (span : Span) : Action FrameId := do
  newFrame ⟨some parent, ← ofExcept (callBindings formals args span)⟩

end Action

end DualScope
