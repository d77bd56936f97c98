import DualScope.Proofs.Lockstep.Evaluator
import DualScope.Session

/-!
# How an evaluation ends

An evaluation ends with `r` if some budget is enough for it to come to `r`. A larger
budget does not change that, so there is at most one way in which it ends, and one
that no budget is enough for does not end at all. That two evaluations end in the
same way is therefore said of `Ends`, with no budget in sight.

A depth limit shows in two places: an evaluation may end with `tooDeep`, and a `load`
may report this error, which its caller does not see. An ending with neither is
*shallow*.
-/

namespace DualScope

/-! ## Endings -/

def EvalError.isTooDeep : EvalError → Bool
  | .tooDeep _ => true
  | _ => false

namespace Event

def isTooDeep : Event → Bool
  | .reported _ _ (.eval e) => e.isTooDeep
  | _ => false

def isRequest : Event → Bool
  | .opened _ => true
  | _ => false

end Event

def Ending.state? : Ending α → Option State
  | .value _ σ | .error _ σ => some σ
  | .cutShort => none

theorem Ending.exists_state {r : Ending α} (h : r ≠ .cutShort) : ∃ σ, r.state? = some σ := by
  cases r with
  | cutShort => exact absurd rfl h
  | _ => exact ⟨_, rfl⟩

/-- Begun in `σ`, the evaluation came to an end, and no limit was in its way. -/
def Ending.Shallow (σ : State) : Ending α → Prop
  | .value _ σ' => ∀ e ∈ σ'.since σ, e.isTooDeep = false
  | .error e σ' => e.isTooDeep = false ∧ ∀ e ∈ σ'.since σ, e.isTooDeep = false
  | .cutShort => False

/-- No file was asked for from `σ` until the end. -/
def Ending.LoadsNothing (σ : State) (r : Ending α) : Prop :=
  ∀ σ', r.state? = some σ' → ∀ e ∈ σ'.since σ, e.isRequest = false

/-- The evaluation, begun `level` evaluations deep, comes to the end `r`. -/
def Eval.Ends (s : Settings) (level : Nat) (e : Value) (i : FrameId) (σ : State)
    (r : Ending Value) : Prop :=
  r ≠ .cutShort ∧ ∃ budget, nested s budget level e i σ = r

namespace Discipline

variable {D : Discipline} {i : FrameId} {σ σ' : State}

theorem Allows.reaches {post : Nat → α → Prop} {r : Ending α} (h : D.Allows i σ post r)
    (hσ' : r.state? = some σ') : D.Reaches i σ σ' := by
  cases r with
  | value a σ₁ => cases hσ'; exact h.1
  | error e σ₁ => cases hσ'; exact h
  | cutShort => cases hσ'

theorem ends_allows {s : Settings} {level : Nat} {e : Value} {r : Ending Value} (h : D.Sound σ)
    (hi : D.frame σ.frames.size i) (he : D.Fine σ.frames.size e)
    (hend : Eval.Ends s level e i σ r) : D.Allows i σ D.Fine r := by
  obtain ⟨_, budget, rfl⟩ := hend
  exact D.nested_allows h hi he

end Discipline

/-! ## A discipline that everything keeps -/

namespace Discipline

def any : Discipline where
  inv _ := True
  frame _ _ := True
  closure _ _ := True
  moves _ := State.Grows
  moves_refl := .refl _
  moves_trans := .trans
  moves_inside h₁ _ h₂ := h₁.trans h₂
  moves_load _ _ h := (State.grows_emit _ _).trans h
  moves_size h := h.size
  moves_log h := h.log
  frame_mono _ h := h
  frame_old _ _ h := h
  frame_parent _ _ _ _ := trivial
  closure_mono _ h := h
  closure_home _ := trivial
  closure_lambda _ _ := trivial
  closure_mu _ := trivial
  emit _ e _ := ⟨trivial, State.grows_emit _ e⟩
  count _ _ _ _ := ⟨trivial, ⟨Nat.le_refl _, List.suffix_refl _⟩⟩
  bind name v _ _ _ := ⟨trivial, State.grows_bind _ _ name v⟩
  push _ _ _ _ _ := ⟨trivial, State.grows_push _ _, trivial⟩

theorem any_fine (n : Nat) (v : Value) : any.Fine n v :=
  Value.every_of_all (fun _ => trivial) v

theorem any_sound (σ : State) : any.Sound σ :=
  ⟨trivial, fun _ _ _ _ b _ => any_fine _ b.2⟩

end Discipline

/-! ## Endings that agree -/

namespace Pairing

variable {D : Discipline}

/-- The terms accept the ending. -/
def Settles (P : Pairing D) (σ : State) : Ending α → Prop
  | .value _ σ' => P.Accepts σ σ'
  | .error e σ' => P.Accepts σ σ' ∧ P.error e
  | .cutShort => False

theorem settles_all {σ : State} {r : Ending α} (h : r ≠ .cutShort) : (all D).Settles σ r := by
  cases r with
  | value a σ' => exact fun _ _ => trivial
  | error e σ' => exact ⟨fun _ _ => trivial, trivial⟩
  | cutShort => exact absurd rfl h

/-- Of two runs from one state, the other one comes to the same end, or escapes. -/
theorem Follows.settled {error : EvalError → Prop} {event : Event → Prop}
    {escape : EvalError → Prop} {h₁ h₂} {σ : State} {r r' : Ending α}
    (h : (sameState D error event escape h₁ h₂).Follows σ r r')
    (hr : (sameState D error event escape h₁ h₂).Settles σ r) :
    (∃ e τ, r' = .error e τ ∧ escape e) ∨ r' = r := by
  cases r with
  | value a σ' =>
      refine (h hr).imp_right ?_
      rintro ⟨τ', rfl, hrel⟩
      rw [show τ' = σ' from hrel]
  | error e σ' =>
      refine (h hr.1 hr.2).imp_right ?_
      rintro ⟨τ', rfl, hrel⟩
      rw [show τ' = σ' from hrel]
  | cutShort => exact absurd hr id

/-- What evaluations in lockstep come to, where nothing is asked of the state. -/
theorem Evaluations.agrees {error : EvalError → Prop} {event : Event → Prop}
    {escape : EvalError → Prop} {h₁ h₂} {eval eval' : Evaluation} {e : Value} {i : FrameId}
    {σ : State} (hP : (sameState .any error event escape h₁ h₂).Evaluations eval eval')
    (hr : (sameState .any error event escape h₁ h₂).Settles σ (eval e i σ)) :
    (∃ err τ, eval' e i σ = .error err τ ∧ escape err) ∨ eval' e i σ = eval e i σ :=
  (hP e i σ σ ⟨Discipline.any_sound σ, rfl, trivial⟩ (Discipline.any_fine _ e)).follows.settled hr

end Pairing

/-! ## Budgets -/

namespace Eval

variable {s : Settings} {level : Nat} {e : Value} {i : FrameId} {σ : State} {r r' : Ending Value}

section

variable {error : EvalError → Prop} {event : Event → Prop} {escape : EvalError → Prop} {h₁ h₂}
  {s' : Settings} {budget budget' level' : Nat}

theorem nested_agrees
    (hP : (Pairing.sameState .any error event escape h₁ h₂).Evaluations (nested s budget level)
      (nested s' budget' level'))
    (hr : (Pairing.sameState .any error event escape h₁ h₂).Settles σ
      (nested s budget level e i σ)) :
    (∃ err τ, nested s' budget' level' e i σ = .error err τ ∧ escape err) ∨
      nested s' budget' level' e i σ = nested s budget level e i σ :=
  hP.agrees hr

end

theorem nested_stable {budget budget' : Nat} (h : nested s budget level e i σ = r)
    (hr : r ≠ .cutShort) (hle : budget ≤ budget') : nested s budget' level e i σ = r := by
  subst h
  have hall : (Pairing.all .any).Evaluations (nested s budget level) (nested s budget' level) :=
    .nested_budget hle
  rcases nested_agrees hall (Pairing.settles_all hr) with ⟨_, _, _, hno⟩ | heq
  · exact absurd hno id
  · exact heq

theorem Ends.unique (h : Ends s level e i σ r) (h' : Ends s level e i σ r') : r' = r := by
  obtain ⟨hr, budget, hb⟩ := h
  obtain ⟨hr', budget', hb'⟩ := h'
  have h₁ := nested_stable hb hr (Nat.le_max_left budget budget')
  have h₂ := nested_stable hb' hr' (Nat.le_max_right budget budget')
  exact h₂.symm.trans h₁

theorem Ends.iff_eq (h : Ends s level e i σ r) : Ends s level e i σ r' ↔ r' = r :=
  ⟨h.unique, fun heq => heq ▸ h⟩

end Eval

/-! ## Texts -/

namespace Session

open Pairing

variable {s : Settings} {budget budget' : Nat} {σ : State}

/-- The evaluation of a text comes to the end `r`. An error of the text is a result of it. -/
def TextEnds (s : Settings) (text : String) (σ : State) (r : Ending (Except RunError Value)) :
    Prop :=
  r ≠ .cutShort ∧ ∃ budget, evalText s budget text σ = r

theorem lastValue_stable {i : FrameId} {last : Value} {es : List Value} {r : Ending Value}
    (h : Run.lastValue (eval s budget) i last es σ = r) (hr : r ≠ .cutShort)
    (hle : budget ≤ budget') : Run.lastValue (eval s budget') i last es σ = r := by
  subst h
  rw [Run.lastValue_eq_sequence, Run.lastValue_eq_sequence] at *
  have hall : (all .any).Evaluations (eval s budget) (eval s budget') := .nested_budget hle
  have hsequence : (all .any).Lockstep i σ σ (Form.sequence (eval s budget) i last es)
      (Form.sequence (eval s budget') i last es) Discipline.any.Fine :=
    hall.sequence ⟨Discipline.any_sound σ, rfl, trivial⟩ (Discipline.any_fine _ last)
      fun e _ => Discipline.any_fine _ e
  rcases hsequence.follows.settled (settles_all hr) with ⟨_, _, _, hno⟩ | heq
  · exact absurd hno id
  · exact heq

/-- Of a text that can be read, the expressions are evaluated in order. -/
theorem evalText_eq {text : String} {es : List Value} (h : readProgram text = .ok es) :
    evalText s budget text σ =
      match Run.lastValue (eval s budget) root (.okay .none) (Value.stampAll σ.texts es)
        { σ with texts := σ.texts + 1 } with
      | .value v σ' => .value (.ok v) σ'
      | .error e σ' => .value (.error (.eval e)) σ'
      | .cutShort => .cutShort := by
  rw [evalText, Run.program, h]
  simp only [Action.bind_apply, Action.attempt_apply, Run.enter]
  generalize Run.lastValue (eval s budget) root (.okay .none) (Value.stampAll σ.texts es)
    { σ with texts := σ.texts + 1 } = r
  cases r <;> rfl

theorem evalText_stable {text : String} {r : Ending (Except RunError Value)}
    (h : evalText s budget text σ = r) (hr : r ≠ .cutShort) (hle : budget ≤ budget') :
    evalText s budget' text σ = r := by
  subst h
  cases hread : readProgram text with
  | error e => rw [evalText, evalText, Run.program, Run.program, hread]
  | ok es =>
      rw [evalText_eq hread] at hr
      rw [evalText_eq hread, evalText_eq hread, lastValue_stable rfl ?_ hle]
      intro hcut
      rw [hcut] at hr
      exact hr rfl

theorem TextEnds.unique {text : String} {r r' : Ending (Except RunError Value)}
    (h : TextEnds s text σ r) (h' : TextEnds s text σ r') : r' = r := by
  obtain ⟨hr, budget, hb⟩ := h
  obtain ⟨hr', budget', hb'⟩ := h'
  have h₁ := evalText_stable hb hr (Nat.le_max_left budget budget')
  have h₂ := evalText_stable hb' hr' (Nat.le_max_right budget budget')
  exact h₂.symm.trans h₁

end Session

end DualScope
