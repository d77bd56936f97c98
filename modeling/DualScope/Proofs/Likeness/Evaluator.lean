import DualScope.Proofs.Likeness.Calls
import DualScope.Proofs.Ends
import DualScope.Session

/-!
# Evaluations that are alike

A step on an expression depends on its shape and on what its names mean, so that a step on one
that is alike is alike. What the step leaves is evaluated in the same frame on both sides, at
the same level and with the same budget. Hence, by induction on the budget, expressions that
are alike are evaluated alike, and texts that are read alike are run alike.
-/

namespace DualScope

variable {L : Likeness} {C : Accord L} {eval eval' : Evaluation}

namespace Eval

theorem like_operands (heval : C.Evaluations eval eval') (i : FrameId) {es es' : List Value}
    (h : List.Forall₂ (Value.Like L) es es') {known known' : List Value}
    (hknown : List.Forall₂ (Value.Like L) known known') :
    C.Agree (List.Forall₂ (Value.Like L)) (operands eval i known es)
      (operands eval' i known' es') := by
  induction h generalizing known known' with
  | nil => exact .pure (List.rel_reverse hknown)
  | cons he _ ih => exact .bind (heval _ _ i he) fun v v' hv => ih (.cons hv hknown)

/-- What is done with arguments as a list is alike, and so is the complaint that they are none. -/
theorem like_listed {args args' : Value} (h : args.Like L args')
    {f g : List Value → Action Next}
    (hfg : ∀ vs vs', List.Forall₂ (Value.Like L) vs vs' →
      C.Agree (Next.Like L) (f vs) (g vs')) :
    C.Agree (Next.Like L)
      (match args.list? with
        | some vs => f vs
        | none => .fail (.malformed args))
      (match args'.list? with
        | some vs => g vs
        | none => .fail (.malformed args')) := by
  rcases cases_of_rel h.list? with ⟨hvs, hvs'⟩ | ⟨vs, vs', hvs, hvs', hlike⟩
  · rw [hvs, hvs']
    exact .fail (.malformed h)
  · rw [hvs, hvs']
    exact hfg vs vs' hlike

/-- Arguments that are no callee and a list are none on the other side either. -/
theorem like_not_application {args args' : Value} (h : args.Like L args')
    (hargs : ∀ id inner id' list nspan lspan aspan,
      args = .pair id inner (.pair id' list (.nil nspan) lspan) aspan → False) :
    ∀ id inner id' list nspan lspan aspan,
      args' = .pair id inner (.pair id' list (.nil nspan) lspan) aspan → False := by
  rintro id inner id' list nspan lspan aspan rfl
  cases h with
  | pair _ _ hrest _ =>
  cases hrest with
  | pair _ _ hnil _ =>
  cases hnil with
  | nil _ => exact hargs _ _ _ _ _ _ _ rfl

theorem like_apply (heval : C.Evaluations eval eval') (i : FrameId)
    {args args' callee callee' : Value} (hargs : args.Like L args')
    (hcallee : callee.Like L callee') {s s' : Span} (hs : L.span s s') :
    C.Agree (Next.Like L) (apply eval i args callee s) (apply eval' i args' callee' s') := by
  induction args, callee, s using Eval.apply.induct generalizing args' callee' s' with
  | case1 s pspan id inner id' list nspan lspan aspan hlist ih =>
      cases hcallee with
      | primitive _ hp =>
      cases hargs with
      | pair _ hinner hrest _ =>
      cases hrest with
      | pair _ hlist' hnil _ =>
      cases hnil with
      | nil _ =>
          simp only [apply, hlist'.isProper, if_pos hlist]
          refine .bind (ih hlist' hinner hinner.span) fun next next' hnext => ?_
          cases hnext with
          | done hv => exact .pure (.done hv)
          | eval j he => exact .bind (heval _ _ j he) fun _ _ hv => .pure (.done hv)
  | case2 s pspan id inner id' list nspan lspan aspan hlist =>
      cases hcallee with
      | primitive _ hp =>
      cases hargs with
      | pair _ hinner hrest _ =>
      cases hrest with
      | pair _ hlist' hnil _ =>
      cases hnil with
      | nil _ =>
          simp only [apply, hlist'.isProper, if_neg hlist, hlist'.kind]
          exact .fail (.primitive _ _ hs)
  | case3 s pspan args hshape vs hvs | case4 s pspan args hshape hvs =>
      cases hcallee with
      | primitive _ hp =>
          have hshape' := like_not_application hargs hshape
          rw [apply.eq_2 _ _ _ _ _ hshape, apply.eq_2 _ _ _ _ _ hshape']
          exact like_listed hargs fun vs vs' hvs => by
            rw [hvs.length_eq]
            exact .fail (.primitive _ _ hs)
  | case5 args s p pspan hp vs hvs | case6 args s p pspan hp hvs =>
      cases hcallee with
      | primitive _ _ =>
          rw [apply.eq_3 _ _ _ _ _ _ hp, apply.eq_3 _ _ _ _ _ _ hp]
          exact like_listed hargs fun vs vs' hvs =>
            .bind (Primitive.like_call heval i p hs hvs) fun _ _ hv => .pure (.done hv)
  | case7 args s id formals body home lspan =>
      cases hcallee with
      | lambda _ _ hformals hbody _ =>
          rw [apply.eq_4, apply.eq_4]
          refine .bind (.callFrame home hformals hargs hs) ?_
          rintro j _ rfl
          exact .pure (.eval j hbody)
  | case8 args s id formals body mspan =>
      cases hcallee with
      | mu _ hformals hbody _ =>
          rw [apply.eq_5, apply.eq_5]
          refine .bind (.callFrame i hformals hargs hs) ?_
          rintro j _ rfl
          exact .pure (.eval j hbody)
  | case9 args s callee h₁ h₂ h₃ h₄ =>
      rw [apply.eq_6 _ _ _ _ _ h₁ h₂ h₃ h₄]
      cases hcallee with
      | primitive _ _ => exact (h₂ _ _ rfl).elim
      | lambda _ _ _ _ _ => exact (h₃ _ _ _ _ _ rfl).elim
      | mu _ _ _ _ => exact (h₄ _ _ _ _ rfl).elim
      | _ =>
          rw [apply.eq_6 _ _ _ _ _ (fun _ h => by cases h) (fun _ _ h => by cases h)
            (fun _ _ _ _ _ h => by cases h) (fun _ _ _ _ h => by cases h)]
          exact .fail (.notCallable (by constructor <;> assumption) hs)

theorem like_step (heval : C.Evaluations eval eval') (i : FrameId) {e e' : Value}
    (h : e.Like L e') : C.Agree (Next.Like L) (step eval e i) (step eval' e' i) := by
  have he := h
  cases h with
  | symbol hname hs => exact .bind (C.lookup i hname hs) fun _ _ hv => .pure (.done hv)
  | pair hid hhead hrest hs =>
      unfold step
      dsimp only
      rw [hrest.isProper, hhead.symbol?]
      split
      · exact .fail (.malformed he)
      · split
        · exact Form.like_perform heval i hrest hs _
        · refine .bind (heval _ _ i hhead) fun callee callee' hcallee => ?_
          refine .bind (like_operands heval i hrest.elements .nil) fun args args' hargs => ?_
          exact like_apply heval i (Value.like_ofList hargs) hcallee hs
  | _ => exact .pure (.done he)

/-! ## Evaluations -/

/-- What a step leaves is seen to in agreement. -/
theorem like_conclude {onward onward' : Evaluation} (heval : C.Evaluations eval eval')
    (honward : C.Evaluations onward onward') {e e' : Value} (i : FrameId) (he : e.Like L e') :
    C.Agree (Value.Like L)
      (step eval e i >>= Next.conclude onward) (step eval' e' i >>= Next.conclude onward') := by
  refine .bind (like_step heval i he) fun next next' hnext => ?_
  cases hnext with
  | done hv => exact .pure hv
  | eval j he => exact honward _ _ j he

theorem like_nested_of_run {s : Settings} {budget level : Nat}
    (hrun : C.Evaluations (run s budget (level + 1)) (run s budget (level + 1))) :
    C.Evaluations (nested s budget level) (nested s budget level) := by
  by_cases hlevel : level < s.limit
  · rw [nested_of_lt hlevel]
    exact hrun
  · rw [nested_of_le (Nat.le_of_not_lt hlevel)]
    exact fun _ _ _ _ => .fail (.tooDeep s.limit)

/-- Expressions that are alike are evaluated in agreement, if there is agreement where the budget
is used up. -/
theorem like_run (hcut : C.Agree (Value.Like L) Action.cutShort Action.cutShort) (s : Settings)
    (budget level : Nat) : C.Evaluations (run s budget level) (run s budget level) := by
  -- A step may evaluate one level deeper, with the smaller budget, and so may what it leaves.
  induction budget generalizing level with
  | zero => exact fun _ _ _ _ => hcut
  | succ budget ih =>
      intro e e' i he
      have hnested := like_nested_of_run (ih (level + 1))
      rw [run_eq_bind, run_eq_bind]
      refine like_conclude hnested ?_ i he
      unfold onward
      cases s.strategy with
      | tailCall => exact ih level
      | recursive => exact hnested

theorem like_nested (hcut : C.Agree (Value.Like L) Action.cutShort Action.cutShort)
    (s : Settings) (budget level : Nat) :
    C.Evaluations (nested s budget level) (nested s budget level) :=
  like_nested_of_run (like_run hcut s budget (level + 1))

theorem like_onward (hcut : C.Agree (Value.Like L) Action.cutShort Action.cutShort) (s : Settings)
    (budget level : Nat) : C.Evaluations (onward s budget level) (onward s budget level) := by
  unfold onward
  cases s.strategy with
  | tailCall => exact like_run hcut s budget level
  | recursive => exact like_nested hcut s budget level

end Eval

/-! ## Ends -/

section

variable {P : α → β → Prop} {σ τ : State} {r : Ending α} {r' : Ending β}

theorem EvalError.Like.isTooDeep {e e' : EvalError} (h : e.Like L e') :
    e'.isTooDeep = e.isTooDeep := by
  cases h <;> rfl

theorem Event.Like.isTooDeep {e e' : Event} (h : e.Like L e') : e'.isTooDeep = e.isTooDeep := by
  cases h with
  | reported source text he =>
      cases he with
      | eval he => exact he.isTooDeep
      | read he => rfl
  | _ => rfl

theorem Ending.Like.state {σ' τ' : State} (h : r.Like L P r') (hσ' : r.state? = some σ')
    (hτ' : r'.state? = some τ') : σ'.Like L τ' := by
  cases h with
  | cutShort => cases hσ'
  | value _ hlike | error _ hlike =>
      cases hσ'
      cases hτ'
      exact hlike

/-- Of two ends that are alike no limit was in the way of the one if none was in the way of the
other. -/
theorem Ending.Like.shallow_iff (h : r.Like L P r') (hσ : σ.log = L.log) (hτ : τ.log = L.log') :
    r.Shallow σ ↔ r'.Shallow τ := by
  have hevents : ∀ {σ' τ' : State}, σ'.Like L τ' → ((∀ e ∈ σ'.since σ, e.isTooDeep = false) ↔
      ∀ e ∈ τ'.since τ, e.isTooDeep = false) := by
    intro σ' τ' hστ
    have hsince := hστ.since hσ hτ
    generalize σ'.since σ = new at hsince ⊢
    generalize τ'.since τ = new' at hsince ⊢
    induction hsince with
    | nil => exact Iff.rfl
    | cons he _ ih =>
        rw [List.forall_mem_cons, List.forall_mem_cons, he.isTooDeep]
        exact and_congr_right fun _ => ih
  cases h with
  | value _ hστ => exact hevents hστ
  | error he hστ => exact and_congr (by rw [he.isTooDeep]) (hevents hστ)
  | cutShort => exact Iff.rfl

end

/-! ## The start -/

/-- At the start of a session all that is bound is the primitives. -/
theorem Session.primitive_of_bound {files : Files} {i : FrameId} {f : Frame} {name : String}
    {v : Value} (hf : (start files).frames.get? i = some f) (hv : f.find? name = some v) :
    ∃ p, v = .primitive p .none := by
  have hi : i = 0 := Nat.lt_one_iff.mp (Frames.lt_size hf)
  subst hi
  cases hf
  obtain ⟨b, hb, rfl⟩ := Frame.mem_of_find? hv
  obtain ⟨p, -, rfl⟩ := List.mem_map.mp hb
  exact ⟨p, rfl⟩

end DualScope
