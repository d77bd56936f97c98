import DualScope.Proofs.Ends
import DualScope.Proofs.Proceeding
import DualScope.Session

/-!
# The recursive strategy comes to an end

Under `recursive` everything that is evaluated is evaluated one level deeper, what a
step leaves as well as an operand. So the room that is left below the limit shrinks
with every evaluation on the way to the innermost one, and a budget as large as that
room is never used up. Nothing else in the evaluator can go on forever, for a step has
only so much to do (`Eval.Proceeds`): the loops of the forms go over a list of operands,
`load` over the expressions of one text, a call of `apply` over smaller and smaller
arguments, and a name is looked up in ever older frames, which in a reachable state are
all those above.

A call of `eval`, `apply` or `load` has no way to evaluate but the one that its caller
hands it, and that one is at the level of the caller's operands. Were there another
one, it would have to be paid for from the budget like any other, and the room below
the limit would not be enough of it.
-/

namespace DualScope

/-! ## Actions that come to an end -/

/-- From every state the action comes to an end, with a value or an error. -/
def Action.Finishes (x : Action α) : Prop :=
  ∀ σ, x σ ≠ .cutShort

/-- Every expression has its evaluation come to an end in every frame. -/
def Evaluation.Finishes (eval : Evaluation) : Prop :=
  ∀ e i, (eval e i).Finishes

namespace Action.Finishes

theorem pure (a : α) : (Pure.pure a : Action α).Finishes :=
  fun _ h => by cases h

theorem fail (e : EvalError) : (Action.fail e : Action α).Finishes :=
  fun _ h => by cases h

theorem bind {x : Action α} {f : α → Action β} (hx : x.Finishes) (hf : ∀ a, (f a).Finishes) :
    (x >>= f).Finishes := by
  intro σ
  rw [Action.bind_apply]
  cases h : x σ with
  | value a σ₁ => exact hf a σ₁
  | error e σ₁ => exact fun h' => by cases h'
  | cutShort => exact absurd h (hx σ)

theorem attempt {x : Action α} (hx : x.Finishes) : x.attempt.Finishes := by
  intro σ
  rw [Action.attempt_apply]
  cases h : x σ with
  | value a σ₁ => exact fun h' => by cases h'
  | error e σ₁ => exact fun h' => by cases h'
  | cutShort => exact absurd h (hx σ)

end Action.Finishes

/-- What proceeds has but finitely many things to do, and all but evaluations are done at once. -/
theorem Eval.Proceeds.finishes {eval : Evaluation} (heval : eval.Finishes) {i : FrameId}
    {x : Action Next} (h : Proceeds eval i x) : x.Finishes := by
  induction h with
  | done v => exact .pure _
  | tail e => exact .pure _
  | fail err => exact .fail err
  | attempt e _ ih => exact (heval e _).attempt.bind ih
  | look f _ ih => exact fun σ => ih (f σ) σ
  | bind name v _ ih => exact fun σ => ih _
  | emit e _ ih => exact fun σ => ih _
  | count made texts _ ih => exact fun σ => ih _
  | frame f _ ih => exact fun σ => ih _ _
  | root _ ih => exact fun σ => ih _ σ

/-! ## Evaluations -/

namespace Eval

/-- A budget as large as the room below the limit is enough. -/
theorem nested_finishes {limit level budget : Nat} (hroom : limit - level ≤ budget) :
    Evaluation.Finishes (nested ⟨.recursive, limit⟩ budget level) := by
  induction budget generalizing level with
  | zero =>
      have hdeep : nested ⟨.recursive, limit⟩ 0 level = fun _ _ => .fail (.tooDeep limit) :=
        nested_of_le (show limit ≤ level by omega) 0
      rw [hdeep]
      exact fun _ _ => .fail _
  | succ budget ih =>
      by_cases hlevel : level < limit
      · have hbelow : Evaluation.Finishes (nested ⟨.recursive, limit⟩ budget (level + 1)) :=
          ih (by omega)
        have hrun : nested ⟨.recursive, limit⟩ (budget + 1) level =
            run ⟨.recursive, limit⟩ (budget + 1) (level + 1) := nested_of_lt hlevel _
        rw [hrun]
        intro e i
        rw [run_eq_bind]
        -- What the step leaves is evaluated where its operands are, a level deeper.
        refine ((step_proceeds _ e i).finishes hbelow).bind fun next => ?_
        cases next with
        | done v => exact .pure v
        | eval e j => exact hbelow e j
      · have hdeep : nested ⟨.recursive, limit⟩ (budget + 1) level =
            fun _ _ => .fail (.tooDeep limit) := nested_of_le (Nat.le_of_not_lt hlevel) _
        rw [hdeep]
        exact fun _ _ => .fail _

/-- Under `recursive` every evaluation comes to an end, with a value or an error, and it
comes to it with any budget that is as large as the room below the limit: at no time are
more evaluations under way inside of one another, whoever began them. Where `apply` calls
`apply` in turn, however often, no evaluation begins and no level is taken: each call finds
its arguments inside of those of the one before, and this is why such a chain ends. -/
theorem recursive_ends (limit level : Nat) (e : Value) (i : FrameId) (σ : State) :
    ∃ r, Ends ⟨.recursive, limit⟩ level e i σ r ∧
      ∀ budget, limit - level ≤ budget → nested ⟨.recursive, limit⟩ budget level e i σ = r := by
  have hne := nested_finishes (Nat.le_refl (limit - level)) e i σ
  refine ⟨_, ⟨hne, limit - level, rfl⟩, fun budget hroom => ?_⟩
  exact nested_stable rfl hne hroom

/-- `(load "self")`, with the procedure itself for its name. -/
def loadSelf : Value :=
  .ofList [.primitive .load .none, .string "self" .none]

/-- A session where every file holds nothing but the call that loads it. -/
def selfLoading : State :=
  Session.start fun _ => .ok "(load \"self\")"

theorem recursive_ends_loadSelf :
    ∃ r, Ends ⟨.recursive, 20⟩ 0 loadSelf 0 selfLoading r ∧
      nested ⟨.recursive, 20⟩ 20 0 loadSelf 0 selfLoading = r := by
  obtain ⟨r, hends, hbudget⟩ := recursive_ends 20 0 loadSelf 0 selfLoading
  exact ⟨r, hends, hbudget 20 (by decide)⟩

end Eval

end DualScope
