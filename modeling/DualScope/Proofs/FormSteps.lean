import DualScope.Proofs.Constants

/-!
# What a step on a form does

A step on a form depends on its operands alone. Where the form stands in a text would show in the
value of a form without operands or in a fault, and neither comes up where the operands are such
as they should be.
-/

namespace DualScope

theorem Value.IsFalsity.of_isTrue {v : Value} (h : ¬ v.isTrue) : v.IsFalsity := by
  cases v with
  | boolean b span =>
      cases b with
      | false => exact ⟨span, rfl⟩
      | true => exact absurd rfl h
  | _ => exact absurd rfl h

namespace Form

/-- The form with these operands, at no place in a text. -/
def on (form : Form) (operands : List Value) : Value :=
  .ofList (.symbol form.name .none :: operands)

theorem isForm_on (form : Form) (operands : List Value) : (form.on operands).IsForm form operands :=
  ⟨.none, Value.list?_ofList _⟩

variable {x t b c e : Value} {es rest : List Value}

theorem step_ifElse (h : x.IsForm .ifElse [t, b, c]) (eval : Evaluation) (i : FrameId) :
    Eval.step eval x i = eval t i >>= fun v => pure (.eval (if v.isTrue then b else c) i) := by
  obtain ⟨operands, span, hoperands, hstep⟩ := step_eq_perform h
  have hlength : checkLength operands 2 (some 3) = .ok () :=
    checkLength_of_list? hoperands (by simp) fun _ h => by cases h; exact Nat.le_refl _
  have hcar : operands.car? = some t := by
    obtain ⟨id, others, ospan, rfl, -⟩ := Value.list?_eq_cons hoperands
    rfl
  rw [hstep]
  simp only [perform, hlength, Action.ofExcept_ok, pure_bind, hcar, evalOption,
    Value.elements_of_list? hoperands]
  refine congrArg _ (funext fun v => ?_)
  cases v.isTrue <;> rfl

theorem step_cond (h : x.IsForm .cond rest) (eval : Evaluation) (i : FrameId) :
    Eval.step eval x i = clauses eval i rest := by
  obtain ⟨operands, span, hoperands, hstep⟩ := step_eq_perform h
  rw [hstep, perform, Value.elements_of_list? hoperands]

/-- What stands for false is not asked for where there are expressions. -/
theorem disjunction_none (eval : Evaluation) (i : FrameId) (none none' : Value) (e : Value)
    (es : List Value) : disjunction eval i none (e :: es) = disjunction eval i none' (e :: es) := by
  induction es generalizing e with
  | nil => rfl
  | cons e' es ih =>
      rw [disjunction.eq_3 _ _ _ _ _ (List.cons_ne_nil _ _),
        disjunction.eq_3 _ _ _ _ _ (List.cons_ne_nil _ _), ih]

theorem step_or (h : x.IsForm .or (e :: es)) (none : Value) (eval : Evaluation) (i : FrameId) :
    Eval.step eval x i = disjunction eval i none (e :: es) := by
  obtain ⟨operands, span, hoperands, hstep⟩ := step_eq_perform h
  rw [hstep, perform, Value.elements_of_list? hoperands, disjunction_none]

theorem step_and (h : x.IsForm .and (e :: es)) (last : Value) (eval : Evaluation) (i : FrameId) :
    Eval.step eval x i = conjunction eval i last (e :: es) >>= fun v => pure (.done v) := by
  obtain ⟨operands, span, hoperands, hstep⟩ := step_eq_perform h
  rw [hstep, perform, Value.elements_of_list? hoperands, conjunction, conjunction]

theorem step_begin (h : x.IsForm .begin (e :: es)) (eval : Evaluation) (i : FrameId) :
    Eval.step eval x i =
      sequence eval i (.okay .none) (e :: es) >>= fun v => pure (.done v) := by
  obtain ⟨operands, span, hoperands, hstep⟩ := step_eq_perform h
  have hlength : checkLength operands 1 none = .ok () :=
    checkLength_of_list? hoperands (by simp) fun _ h => by cases h
  rw [hstep]
  simp only [perform, hlength, Action.ofExcept_ok, pure_bind, Value.elements_of_list? hoperands]

end Form

end DualScope
