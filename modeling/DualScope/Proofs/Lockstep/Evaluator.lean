import DualScope.Proofs.Lockstep.Calls

/-!
# Evaluations in lockstep

A step of the evaluator evaluates operands one level deeper, and goes on with what
the step leaves. So two runs are in lockstep when their evaluations one level deeper
are, and when what they go on with is: for this it does not matter whether the one
goes on at the same level and the other starts a new evaluation. What is left to do
is always left in the frame of the step or in one that the step made.

Every run is in lockstep with itself, by induction on its budget. This is where all
that was shown of single acts becomes a law of whole evaluations: an evaluation keeps
every discipline.
-/

namespace DualScope

namespace Pairing

variable {D : Discipline} {P : Pairing D} {eval eval' : Evaluation} {i : FrameId} {σ τ : State}

/-! ## Steps -/

/-- What a step left is seen to: here in the frame of the step, or where it was left. -/
theorem Lockstep.conclude {x y : Action Next} {f g : Next → Action β} {post : Nat → β → Prop}
    (h : P.At i σ τ) (hxy : P.Lockstep i σ τ x y (D.Leaves i σ.frames.size))
    (hdone : ∀ v σ₁ τ₁, P.At i σ₁ τ₁ → D.Fine σ₁.frames.size v →
      P.Lockstep i σ₁ τ₁ (f (.done v)) (g (.done v)) post)
    (heval : ∀ e j σ₁ τ₁, P.At j σ₁ τ₁ → D.Fine σ₁.frames.size e →
      P.Lockstep j σ₁ τ₁ (f (.eval e j)) (g (.eval e j)) post) :
    P.Lockstep i σ τ (x >>= f) (y >>= g) post := by
  refine hxy.bind_inside ?_
  intro next σ₁ τ₁ hle hs hrel hnext
  cases next with
  | done v => exact ⟨i, .inl rfl, hdone v σ₁ τ₁ ⟨hs, hrel, D.frame_mono hle h.here⟩ hnext⟩
  | eval e j =>
      obtain ⟨he, hj, hplace⟩ := hnext
      exact ⟨j, hplace, heval e j σ₁ τ₁ ⟨hs, hrel, hj⟩ he⟩

namespace Evaluations

theorem operands (heval : P.Evaluations eval eval') {es : List Value} :
    ∀ {σ τ : State} {known : List Value}, P.At i σ τ → (∀ e ∈ es, D.Fine σ.frames.size e) →
      (∀ v ∈ known, D.Fine σ.frames.size v) →
      P.Lockstep i σ τ (Eval.operands eval i known es) (Eval.operands eval' i known es)
        fun n vs => ∀ v ∈ vs, D.Fine n v := by
  induction es with
  | nil => exact fun h _ hknown => .pure h fun v hv => hknown v (List.mem_reverse.mp hv)
  | cons e es ih =>
      intro σ τ known h hes hknown
      obtain ⟨he, hes⟩ := List.forall_mem_cons.mp hes
      refine .bind h (heval e i σ τ h he) ?_
      intro v σ₁ τ₁ hle h₁ hv
      refine ih h₁ (Discipline.fine_mono hes hle) (List.forall_mem_cons.mpr ⟨hv, ?_⟩)
      exact Discipline.fine_mono hknown hle

theorem apply (heval : P.Evaluations eval eval') (h : P.At i σ τ) {args callee : Value}
    (span : Span) (hargs : D.Fine σ.frames.size args) (hcallee : D.Fine σ.frames.size callee) :
    P.Lockstep i σ τ (Eval.apply eval i args callee span) (Eval.apply eval' i args callee span)
      (D.Leaves i σ.frames.size) := by
  induction args, callee, span using Eval.apply.induct with
  | case1 span pspan id inner id' list nspan lspan aspan hlist ih =>
      simp only [Eval.apply, if_pos hlist]
      refine .conclude h (ih hargs.2.1 hargs.1) (fun v σ₁ τ₁ h₁ hv => .pure h₁ hv) ?_
      exact fun e j σ₁ τ₁ h₁ he => .bind h₁ (heval e j σ₁ τ₁ h₁ he)
        fun v σ₂ τ₂ _ h₂ hv => .pure h₂ hv
  | case2 span pspan id inner id' list nspan lspan aspan hlist =>
      simp only [Eval.apply, if_neg hlist]
      exact .fail h _ _
  | case3 span pspan args hargs' vs hvs =>
      rw [Eval.apply.eq_2 _ _ _ _ _ hargs', Eval.apply.eq_2 _ _ _ _ _ hargs', hvs]
      exact .fail h _ _
  | case4 span pspan args hargs' hvs =>
      rw [Eval.apply.eq_2 _ _ _ _ _ hargs', Eval.apply.eq_2 _ _ _ _ _ hargs', hvs]
      exact .fail h _ _
  | case5 args span p pspan hp vs hvs =>
      rw [Eval.apply.eq_3 _ _ _ _ _ _ hp, Eval.apply.eq_3 _ _ _ _ _ _ hp, hvs]
      exact .bind h (heval.call h p span (hargs.list? hvs)) fun v σ₁ τ₁ _ h₁ hv => .pure h₁ hv
  | case6 args span p pspan hp hvs =>
      rw [Eval.apply.eq_3 _ _ _ _ _ _ hp, Eval.apply.eq_3 _ _ _ _ _ _ hp, hvs]
      exact .fail h _ _
  | case7 args span id formals body home lspan =>
      rw [Eval.apply.eq_4, Eval.apply.eq_4]
      refine .bind h (.callFrame h span (D.closure_home hcallee.1) hargs) ?_
      intro j σ₁ τ₁ hle h₁ hj
      exact .pure h₁ ⟨Discipline.Fine.mono hcallee.2.2 hle, hj.1, .inr hj.2⟩
  | case8 args span id formals body mspan =>
      rw [Eval.apply.eq_5, Eval.apply.eq_5]
      refine .bind h (.callFrame h span h.here hargs) ?_
      intro j σ₁ τ₁ hle h₁ hj
      exact .pure h₁ ⟨Discipline.Fine.mono hcallee.2.2 hle, hj.1, .inr hj.2⟩
  | case9 args span callee h₁ h₂ h₃ h₄ =>
      rw [Eval.apply.eq_6 _ _ _ _ _ h₁ h₂ h₃ h₄, Eval.apply.eq_6 _ _ _ _ _ h₁ h₂ h₃ h₄]
      exact .fail h _ _

theorem step (heval : P.Evaluations eval eval') (h : P.At i σ τ) {e : Value}
    (he : D.Fine σ.frames.size e) :
    P.Lockstep i σ τ (Eval.step eval e i) (Eval.step eval' e i) (D.Leaves i σ.frames.size) := by
  cases e with
  | symbol name span => exact .bind h (.lookup h name span) fun v σ₁ τ₁ _ h₁ hv => .pure h₁ hv
  | pair id head rest span =>
      unfold Eval.step
      by_cases hproper : (!rest.isProper) = true
      · simp only [hproper, if_true]
        exact .fail h _ _
      · simp only [hproper]
        cases head.symbol?.bind Form.ofName? with
        | some form => exact heval.perform h span he.2 form
        | none =>
            refine .bind h (heval head i σ τ h he.1) ?_
            intro callee σ₁ τ₁ hle₁ h₁ hcallee
            refine .bind h₁ (heval.operands h₁ (Discipline.fine_mono he.2.elements hle₁)
              fun _ hv => by cases hv) ?_
            intro args σ₂ τ₂ hle₂ h₂ hargs
            exact (heval.apply h₂ span (Value.every_ofList hargs) (hcallee.mono hle₂)).weaken
              fun n next _ hn => hn.since (Nat.le_trans hle₁ hle₂)
  | _ => exact .pure h he

end Evaluations

/-! ## Runs -/

end Pairing

/-- What a step left is seen to: an expression is evaluated with `onward`. -/
def Next.conclude (onward : Evaluation) : Next → Action Value
  | .done v => pure v
  | .eval e j => onward e j

namespace Eval

variable {s s' : Settings}

/-- How a run goes on with what a step left. -/
def onward (s : Settings) (budget level : Nat) : Evaluation :=
  match s.strategy with
  | .tailCall => run s budget level
  | .recursive => nested s budget level

theorem run_eq_bind (s : Settings) (budget level : Nat) (e : Value) (i : FrameId) :
    run s (budget + 1) level e i =
      step (nested s budget level) e i >>= Next.conclude (onward s budget level) := by
  funext σ
  rw [run_succ, Action.bind_apply]
  cases step (nested s budget level) e i σ with
  | value next σ₁ =>
      cases next with
      | done v => rfl
      | eval e j =>
          unfold onward
          cases s.strategy <;> rfl
  | error err σ₁ => rfl
  | cutShort => rfl

theorem nested_of_lt {level : Nat} (h : level < s.limit) (budget : Nat) :
    nested s budget level = run s budget (level + 1) := by
  funext e i σ
  rw [nested, if_neg (Nat.not_le_of_lt h), atLevel_eq]

theorem nested_of_le {level : Nat} (h : s.limit ≤ level) (budget : Nat) :
    nested s budget level = fun _ _ => .fail (.tooDeep s.limit) := by
  funext e i σ
  rw [nested, if_pos h]
  rfl

end Eval

namespace Pairing

open Eval

variable {D : Discipline} {P : Pairing D} {eval eval' : Evaluation} {s s' : Settings}
  {budget budget' level level' : Nat}

namespace Evaluations

theorem run_zero (eval' : Evaluation) : P.Evaluations (run s 0 level) eval' :=
  fun _ _ _ _ _ _ => ⟨trivial, trivial⟩

theorem run_succ (hnested : P.Evaluations (nested s budget level) (nested s' budget' level'))
    (honward : P.Evaluations (onward s budget level) (onward s' budget' level')) :
    P.Evaluations (run s (budget + 1) level) (run s' (budget' + 1) level') := by
  intro e i σ τ h he
  rw [run_eq_bind, run_eq_bind]
  exact .conclude h (hnested.step h he) (fun v σ₁ τ₁ h₁ hv => .pure h₁ hv)
    fun e j σ₁ τ₁ h₁ he => honward e j σ₁ τ₁ h₁ he

/-- Where it is not accepted that the first run is refused for its depth, there is only the
case where it is not. -/
theorem nested_of_run (herr : ¬ P.error (.tooDeep s.limit))
    (hrun : level < s.limit → P.Evaluations (run s budget (level + 1)) eval') :
    P.Evaluations (nested s budget level) eval' := by
  by_cases hl : level < s.limit
  · rw [nested_of_lt hl]
    exact hrun hl
  · intro e i σ τ hat _
    rw [nested_of_le (Nat.le_of_not_lt hl)]
    exact ⟨D.reaches_refl i hat.sound, fun _ he => absurd he herr⟩

theorem nested_escaped (heval : (Pairing.all D).Evaluations eval eval) (h : s'.limit ≤ level')
    (hesc : P.escape (.tooDeep s'.limit)) : P.Evaluations eval (nested s' budget' level') := by
  intro e i σ τ hat he
  refine ⟨(heval e i σ σ ⟨hat.sound, rfl, hat.here⟩ he).allows, .of_escapes ?_⟩
  exact ⟨.tooDeep s'.limit, τ, by rw [nested_of_le h]; rfl, hesc⟩

theorem nested_of_run_same
    (hrun : P.Evaluations (run s budget (level + 1)) (run s budget' (level + 1))) :
    P.Evaluations (nested s budget level) (nested s budget' level) := by
  by_cases hl : level < s.limit
  · rw [nested_of_lt hl, nested_of_lt hl]
    exact hrun
  · rw [nested_of_le (Nat.le_of_not_lt hl), nested_of_le (Nat.le_of_not_lt hl)]
    exact fun e i σ τ h _ => .fail h _ _

theorem run_budget (hle : budget ≤ budget') :
    P.Evaluations (run s budget level) (run s budget' level) := by
  induction budget generalizing budget' level with
  | zero => exact run_zero _
  | succ budget ih =>
      obtain ⟨budget', rfl⟩ : ∃ b, budget' = b + 1 := ⟨budget' - 1, by omega⟩
      have hle' : budget ≤ budget' := by omega
      have hnested : P.Evaluations (nested s budget level) (nested s budget' level) :=
        nested_of_run_same (ih hle')
      refine run_succ hnested ?_
      unfold onward
      cases s.strategy with
      | tailCall => exact ih hle'
      | recursive => exact hnested

/-- An evaluation that is given more of a budget does not end otherwise, whatever the
evaluations are compared by. With the same budget this says that an evaluation keeps every
discipline. -/
theorem nested_budget (hle : budget ≤ budget') :
    P.Evaluations (nested s budget level) (nested s budget' level) :=
  nested_of_run_same (run_budget hle)

end Evaluations

end Pairing

theorem Discipline.nested_allows (D : Discipline) {s : Settings} {budget level : Nat} {e : Value}
    {i : FrameId} {σ : State} (h : D.Sound σ) (hi : D.frame σ.frames.size i)
    (he : D.Fine σ.frames.size e) :
    D.Allows i σ D.Fine (Eval.nested s budget level e i σ) := by
  have hself : (Pairing.all D).Evaluations (Eval.nested s budget level)
      (Eval.nested s budget level) := .nested_budget (Nat.le_refl _)
  exact (hself e i σ σ ⟨h, rfl, hi⟩ he).allows

end DualScope
