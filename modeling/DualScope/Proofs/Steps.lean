import DualScope.Proofs.Constants
import DualScope.Proofs.Emissions

/-!
# Steps and what they leave

An evaluation takes one step and sees to what this leaves: it goes on at the same level, or, by the
other strategy, one level deeper. Two evaluations that differ only in where they go on come to the
same shallow end, as long as there is as much room for the one as for the other. So to show that
two expressions are evaluated in the same way it is enough to compare what their steps do.
-/

namespace DualScope

namespace Eval

variable {s : Settings} {level : Nat} {e : Value} {i : FrameId} {σ : State} {r : Ending Value}

theorem nested_eq_conclude (h : level < s.limit) (budget : Nat) (e : Value) (i : FrameId) :
    nested s (budget + 1) level e i =
      step (nested s budget (level + 1)) e i >>= Next.conclude (onward s budget (level + 1)) := by
  rw [nested_of_lt h, run_eq_bind]

/-- A step that ends an evaluation is all of it. -/
theorem ends_of_step {budget : Nat} {v : Value} {τ : State} (hlevel : level < s.limit)
    (h : step (nested s budget (level + 1)) e i σ = .value (.done v) τ) :
    Ends s level e i σ (.value v τ) := by
  refine ⟨nofun, budget + 1, ?_⟩
  rw [nested_eq_conclude hlevel, Action.bind_apply, h]
  rfl

theorem ends_of_step_error {budget : Nat} {err : EvalError} {τ : State} (hlevel : level < s.limit)
    (h : step (nested s budget (level + 1)) e i σ = .error err τ) :
    Ends s level e i σ (.error err τ) := by
  refine ⟨nofun, budget + 1, ?_⟩
  rw [nested_eq_conclude hlevel, Action.bind_apply, h]

/-- There is one budget that shows the end and is as large as need be. -/
theorem Ends.exists_budget (h : Ends s level e i σ r) (least : Nat) :
    ∃ budget, nested s (budget + least) level e i σ = r := by
  obtain ⟨hr, budget, hrun⟩ := h
  exact ⟨budget, nested_stable hrun hr (Nat.le_add_right _ _)⟩

/-- At the limit nothing is evaluated. -/
theorem ends_of_le (hfull : s.limit ≤ level) (e : Value) (i : FrameId) (σ : State) :
    Ends s level e i σ (.error (.tooDeep s.limit) σ) := by
  refine ⟨by simp, 0, ?_⟩
  rw [nested_of_le hfull]
  rfl

theorem Ends.room (h : Ends s level e i σ r) (hr : r.Shallow σ) : level < s.limit := by
  by_contra hlevel
  cases (ends_of_le (Nat.le_of_not_lt hlevel) e i σ).unique h
  exact Bool.noConfusion hr.1

section

variable {head : Value} {args : List Value}

/-- A call evaluates its callee, and this is one level deeper. -/
theorem nested_call_of_le (he : e.list? = some (head :: args))
    (hhead : head.symbol?.bind Form.ofName? = none) (hdeeper : s.limit ≤ level + 1) (budget : Nat) :
    nested s (budget + 1) level e i σ = .error (.tooDeep s.limit) σ := by
  by_cases hlevel : level < s.limit
  · rw [nested_eq_conclude hlevel, step_call he hhead, nested_of_le hdeeper]
    rfl
  · rw [nested_of_le (Nat.le_of_not_lt hlevel)]
    rfl

theorem Ends.room_of_call (h : Ends s level e i σ r) (hr : r.Shallow σ)
    (he : e.list? = some (head :: args)) (hhead : head.symbol?.bind Form.ofName? = none) :
    level + 1 < s.limit := by
  by_contra hlevel
  obtain ⟨budget, rfl⟩ := h.exists_budget 1
  rw [nested_call_of_le he hhead (Nat.le_of_not_lt hlevel)] at hr
  exact Bool.noConfusion hr.1

end

end Eval

/-! ## Going on elsewhere -/

namespace Pairing

open Eval

section

variable {D : Discipline} {P : Pairing D} {i : FrameId} {σ τ : State}

theorem Lockstep.go_on {x y : Action Next} {onward onward' : Evaluation} (h : P.At i σ τ)
    (hxy : P.Lockstep i σ τ x y (D.Leaves i σ.frames.size))
    (honward : P.Evaluations onward onward') :
    P.Lockstep i σ τ (x >>= Next.conclude onward) (y >>= Next.conclude onward') D.Fine :=
  .conclude h hxy (fun _ _ _ h₁ hv => .pure h₁ hv) fun e j σ₁ τ₁ h₁ he => honward e j σ₁ τ₁ h₁ he

theorem Lockstep.agrees {x y : Action α} {post : Nat → α → Prop}
    (h : shallow.Lockstep i σ σ x y post) (hr : (x σ).Shallow σ) : y σ = x σ := by
  rcases h.follows.settled (settles_shallow hr) with ⟨_, _, _, hno⟩ | heq
  · exact absurd hno id
  · exact heq

end

theorem shallow_at (i : FrameId) (σ : State) : shallow.At i σ σ :=
  ⟨Discipline.any_sound σ, rfl, trivial⟩

variable {s s' : Settings} {budget budget' level level' : Nat}

theorem shallow_nested (hs : s'.strategy = s.strategy) (hbudget : budget ≤ budget')
    (hroom : s.limit - level ≤ s'.limit - level') :
    shallow.Evaluations (nested s budget level) (nested s' budget' level') :=
  nested_raised hroom (run_raised (.inl hs) hbudget)

theorem shallow_onward (hs : s'.strategy = s.strategy) (hbudget : budget ≤ budget')
    (hroom : s.limit - level ≤ s'.limit - level') :
    shallow.Evaluations (onward s budget level) (onward s' budget' level') := by
  unfold onward
  rw [hs]
  cases s.strategy with
  | tailCall => exact run_raised (.inl hs) hbudget hroom
  | recursive => exact shallow_nested hs hbudget hroom

theorem shallow_nested_onward (hs : s'.strategy = s.strategy) (hbudget : budget ≤ budget')
    (hroom : s.limit - level ≤ s'.limit - level') :
    shallow.Evaluations (nested s budget level) (onward s' budget' level') := by
  unfold onward
  rw [hs]
  cases s.strategy with
  | tailCall =>
      exact .nested_of_run (not_error_shallow _) fun _ => run_raised (.inl hs) hbudget (by omega)
  | recursive => exact shallow_nested hs hbudget hroom

/-- What is to be evaluated deeper than before needs more room. -/
theorem shallow_onward_nested (hs : s'.strategy = s.strategy) (hbudget : budget ≤ budget')
    (hroom : s.limit - level < s'.limit - level') :
    shallow.Evaluations (onward s budget level) (nested s' budget' level') := by
  unfold onward
  cases s.strategy with
  | tailCall =>
      have hlevel : level' < s'.limit := by omega
      rw [nested_of_lt hlevel]
      exact run_raised (.inl hs) hbudget (by omega)
  | recursive => exact shallow_nested hs hbudget (Nat.le_of_lt hroom)

end Pairing

end DualScope
