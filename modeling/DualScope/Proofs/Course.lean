import DualScope.Proofs.Ends
import DualScope.Session

/-!
# The course of a session

A host starts a session and then does one thing after another with it: it evaluates a
text, runs a source, evaluates an expression, calls a procedure, lets a form do its work on
operands. Each of these comes to an end or does not; an error ends it like any other
outcome, and the session goes on from the state that it leaves.

What the host hands in is its own affair, but for the closures. It can only get hold of one
that the session handed out or that is bound somewhere, be it inside of other data. So the
course of a session is its state together with the values handed out so far.

A discipline is kept by one act as it is by one evaluation. What it says of closures is then
kept all along: it holds of what the host hands in, since that is made of closures of which
it holds already.
-/

namespace DualScope

/-- The value is bound to some name in some frame. -/
def State.Binds (σ : State) (v : Value) : Prop :=
  ∃ i f name, σ.frames.get? i = some f ∧ (name, v) ∈ f.bindings

namespace Session

/-! ## Acts of a host -/

inductive Act
  | evalText (text : String)
  | runSource (source text : String) (echo : Bool)
  | eval (i : FrameId) (e : Value)
  | apply (i : FrameId) (callee args : Value)
  | perform (form : Form) (i : FrameId) (operands : Value) (span : Span)
  /-- Data that was read is taken up. -/
  | enter (v : Value)

namespace Act

/-- The frame that the act is done in. -/
def frame : Act → FrameId
  | .eval i _ | .apply i _ _ | .perform _ i _ _ => i
  | .evalText _ | .runSource _ _ _ | .enter _ => root

/-- The values that the host hands in. -/
def given : Act → List Value
  | .eval _ v | .perform _ _ v _ | .enter v => [v]
  | .apply _ callee args => [callee, args]
  | .evalText _ | .runSource _ _ _ => []

/-- Does the act; the result is the values that the host gets back. A form may leave an
expression instead of a value. -/
def run (s : Settings) (budget : Nat) : Act → Action (List Value)
  | .evalText text => do
    match ← Session.evalText s budget text with
    | .ok v => return [v]
    | .error _ => return []
  | .runSource source text echo => do
    let _ ← Session.runSource s budget source text echo
    return []
  | .eval i e => return [← Session.eval s budget e i]
  | .apply i callee args => return [← Session.apply s budget i callee args]
  | .perform form i operands span => do
    match ← form.perform (Session.eval s budget) i operands span with
    | .done v => return [v]
    | .eval e _ => return [e]
  | .enter v => return [← Session.enter v]

end Act

/-! ## Courses -/

/-- How far a session has come: its state, and the values handed out so far. -/
structure Course where
  state : State
  held : List Value

namespace Course

/-- The session has just been started. -/
def start (files : Files) : Course :=
  ⟨Session.start files, []⟩

/-- The value was handed out, or it is bound somewhere. -/
def Knows (c : Course) (v : Value) : Prop :=
  v ∈ c.held ∨ c.state.Binds v

/-- The closure occurs in a value that was handed out or that is bound somewhere. -/
def Shows (c : Course) (closure : Value) : Prop :=
  ∃ v, c.Knows v ∧ closure ∈ v.closures

/-- The act is done in a frame that is there, with values that a host can have. -/
structure Offers (c : Course) (a : Act) : Prop where
  frame : a.frame < c.state.frames.size
  given : ∀ v ∈ a.given, v.Every c.Shows

/-- What a host gets back from an act. -/
def answer : Ending (List Value) → List Value
  | .value vs _ => vs
  | _ => []

/-- The second course goes on from the first by acts that came to an end, whichever. -/
inductive Leads (c : Course) : Course → Prop
  | refl : Leads c c
  | act {c₁ : Course} {σ : State} (s : Settings) (budget : Nat) (a : Act) : Leads c c₁ →
    c₁.Offers a → (a.run s budget c₁.state).state? = some σ →
      Leads c ⟨σ, answer (a.run s budget c₁.state) ++ c₁.held⟩

/-- A session with these files can have come as far as that. -/
def Reached (files : Files) (c : Course) : Prop :=
  (start files).Leads c

end Course

end Session

/-! ## Disciplines of a course -/

namespace Discipline

open Session (Act Course)
open Pairing (all)

variable {D : Discipline} {σ : State}

/-- An act keeps every discipline, and what the host gets back is fine. -/
theorem act_allows (s : Settings) (budget : Nat) {a : Act} (h : D.Sound σ)
    (hframe : D.frame σ.frames.size a.frame) (hgiven : ∀ v ∈ a.given, D.Fine σ.frames.size v) :
    D.Allows a.frame σ (fun n vs => ∀ v ∈ vs, D.Fine n v) (a.run s budget σ) := by
  have heval : (all D).Evaluations (Session.eval s budget) (Session.eval s budget) :=
    .nested_budget (Nat.le_refl _)
  have hat : (all D).At a.frame σ σ := ⟨h, rfl, hframe⟩
  have one : ∀ {n v}, D.Fine n v → ∀ w ∈ [v], D.Fine n w :=
    fun hv => List.forall_mem_singleton.mpr hv
  suffices hlock : (all D).Lockstep a.frame σ σ (a.run s budget) (a.run s budget)
      fun n vs => ∀ v ∈ vs, D.Fine n v from hlock.allows
  cases a with
  | evalText text =>
      refine .bind hat (heval.program hat text) fun r σ₁ τ₁ _ h₁ hr => ?_
      cases r with
      | ok v => exact .pure h₁ (one (hr v rfl))
      | error e => exact .pure h₁ fun _ hv => by cases hv
  | runSource source text echo =>
      exact .bind hat (heval.source (fun _ h => h) hat source text echo)
        fun _ σ₁ τ₁ _ h₁ _ => .pure h₁ fun _ hv => by cases hv
  | eval i e =>
      exact .bind hat (heval e i σ σ hat (hgiven e List.mem_cons_self))
        fun v σ₁ τ₁ _ h₁ hv => .pure h₁ (one hv)
  | apply i callee args =>
      obtain ⟨hcallee, hargs⟩ := List.forall_mem_cons.mp hgiven
      have happly := heval.apply hat callee.span (hargs args List.mem_cons_self) hcallee
      have hcall : (all D).Lockstep i σ σ (Session.apply s budget i callee args)
          (Session.apply s budget i callee args) D.Fine :=
        .conclude hat happly (fun v σ₁ τ₁ h₁ hv => .pure h₁ hv)
          fun e j σ₁ τ₁ h₁ he => heval e j σ₁ τ₁ h₁ he
      exact .bind hat hcall fun v σ₁ τ₁ _ h₁ hv => .pure h₁ (one hv)
  | perform form i operands span =>
      have ho := hgiven operands List.mem_cons_self
      refine .bind hat (heval.perform hat span ho form) fun next σ₁ τ₁ _ h₁ hnext => ?_
      cases next with
      | done v => exact .pure h₁ (one hnext)
      | eval e j => exact .pure h₁ (one hnext.1)
  | enter v =>
      have hv := Value.every_stamp σ.texts 0 0 (hgiven v List.mem_cons_self)
      have henter : (all D).Lockstep Session.root σ σ (Session.enter v) (Session.enter v) D.Fine :=
        .of_value rfl rfl (D.reaches_count Session.root σ.made (σ.texts + 1) h) rfl hv
      exact .bind hat henter fun w σ₁ τ₁ _ h₁ hw => .pure h₁ (one hw)

/-- The discipline holds of a course: of its state and of what was handed out. -/
structure Holds (D : Discipline) (c : Course) : Prop where
  sound : D.Sound c.state
  held : ∀ v ∈ c.held, D.Fine c.state.frames.size v

/-- Nothing that is bound at the start is a closure. -/
theorem Holds.start {files : Files} (h : D.inv (Session.start files)) :
    D.Holds (Course.start files) := by
  refine ⟨⟨h, ?_⟩, fun _ hv => by cases hv⟩
  intro i f _ hf b hb
  have hlt : i < (Session.start files).frames.size := Frames.lt_size hf
  cases Nat.lt_one_iff.mp hlt
  cases hf
  obtain ⟨p, _, rfl⟩ := List.mem_map.mp hb
  exact trivial

/-- Whatever a host can get hold of is fine. -/
theorem Holds.fine {c : Course} {v : Value} (h : D.Holds c)
    (hall : ∀ {n i}, i < n → D.frame n i) (hv : c.Knows v) : D.Fine c.state.frames.size v := by
  rcases hv with hv | ⟨i, f, name, hf, hb⟩
  · exact h.held v hv
  · exact h.sound.bound i f (hall (Frames.lt_size hf)) hf _ hb

theorem Holds.closure {c : Course} {p : Value} (h : D.Holds c)
    (hall : ∀ {n i}, i < n → D.frame n i) (hp : c.Shows p) :
    D.closure c.state.frames.size p := by
  obtain ⟨v, hv, hp⟩ := hp
  have hfine : v.Every (D.closure c.state.frames.size) := h.fine hall hv
  exact Value.every_iff.mp hfine p hp

section

variable {c c' : Course}

/-- An act keeps a discipline that lets things be evaluated in every frame, and it moves the
state as the discipline says. -/
theorem Holds.act (hall : ∀ {n i}, i < n → D.frame n i) (h : D.Holds c) {s : Settings}
    {budget : Nat} {a : Act} (hoffers : c.Offers a)
    (hend : (a.run s budget c.state).state? = some σ) :
    D.moves a.frame c.state σ ∧
      D.Holds ⟨σ, Course.answer (a.run s budget c.state) ++ c.held⟩ := by
  have hgiven : ∀ v ∈ a.given, D.Fine c.state.frames.size v := by
    intro v hv
    exact Value.Every.mono (fun p hp => h.closure hall hp) (hoffers.given v hv)
  have hallows := act_allows s budget h.sound (hall hoffers.frame) hgiven
  have hreaches := hallows.reaches hend
  refine ⟨hreaches.1, hreaches.2, List.forall_mem_append.mpr ⟨?_, ?_⟩⟩
  · cases hr : a.run s budget c.state with
    | value vs σ₁ =>
        rw [hr] at hallows hend
        cases hend
        exact hallows.2
    | error e σ₁ => exact fun _ hv => by cases hv
    | cutShort => exact fun _ hv => by cases hv
  · exact Discipline.fine_mono h.held (D.moves_size hreaches.1)

theorem Holds.leads (hall : ∀ {n i}, i < n → D.frame n i) (h : D.Holds c) (hc : c.Leads c') :
    D.Holds c' := by
  induction hc with
  | refl => exact h
  | act s budget a _ hoffers hend ih => exact (ih.act hall hoffers hend).2

/-- If it makes no difference to the moves what they are done for, a course is one move. -/
theorem Holds.moves (hall : ∀ {n i}, i < n → D.frame n i)
    (hany : ∀ {i j σ σ'}, D.moves i σ σ' → D.moves j σ σ') (h : D.Holds c) (hc : c.Leads c')
    (i : FrameId) : D.moves i c.state c'.state := by
  induction hc with
  | refl => exact D.moves_refl
  | act s budget a hc₁ hoffers hend ih =>
      exact D.moves_trans ih (hany ((h.leads hall hc₁).act hall hoffers hend).1)

end

end Discipline

end DualScope
