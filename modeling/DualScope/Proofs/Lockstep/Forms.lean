import DualScope.Proofs.Lockstep

/-!
# Forms in lockstep

A form evaluates operands in the frame it stands in, and `let` also in the one it
makes. So two ways to evaluate that are in lockstep make forms that are in lockstep,
and what a form leaves to be done is an expression of the program in a frame of the
program. The loops of the forms go over lists of operands, and each statement about
one of them is an induction over that list.
-/

namespace DualScope

namespace Pairing

variable {D : Discipline} {P : Pairing D} {eval eval' : Evaluation} {i : FrameId} {σ τ : State}

/-! ## Checks -/

/-- A check that does not look at the state: what is known afterwards is that it was passed. -/
theorem Lockstep.check (h : P.At i σ τ) (x : Except EvalError α) :
    P.Lockstep i σ τ (Action.ofExcept x) (Action.ofExcept x) fun _ a => x = .ok a :=
  .ofExcept h fun _ ha => ha

theorem Lockstep.define (h : P.At i σ τ) (target : Value) {v : Value}
    (hv : D.Fine σ.frames.size v) :
    P.Lockstep i σ τ (Action.define i target v) (Action.define i target v) fun _ _ => True := by
  unfold Action.define
  split
  · exact .bindIn h _ hv
  · exact .fail h _ _

theorem Lockstep.callFrame (h : P.At i σ τ) {parent : FrameId} {formals args : Value} (span : Span)
    (hp : D.frame σ.frames.size parent) (hargs : D.Fine σ.frames.size args) :
    P.Lockstep i σ τ (Action.callFrame parent formals args span)
      (Action.callFrame parent formals args span)
      fun n j => D.frame n j ∧ σ.frames.size ≤ j := by
  refine .bind h (.check h _) ?_
  intro bindings σ₁ τ₁ hle h₁ hb
  have hfine := every_callBindings hargs hb
  refine (Lockstep.newFrame h₁ (D.frame_mono hle hp)
    (Discipline.fine_bindings_mono hfine hle)).weaken ?_
  intro n j _ hj
  exact ⟨hj.1, Nat.le_trans hle hj.2⟩

/-! ## Closures -/

theorem Lockstep.makeLambda (h : P.At i σ τ) {operands : Value} (span : Span)
    (ho : D.Fine σ.frames.size operands) :
    P.Lockstep i σ τ (Form.makeLambda i operands span) (Form.makeLambda i operands span)
      D.Fine := by
  refine .bind h (.check h _) ?_
  rintro ⟨formals, body⟩ σ₁ τ₁ hle h₁ hparts
  refine .bind h₁ (.freshIdentity h₁) ?_
  intro id σ₂ τ₂ hle₂ h₂ _
  obtain ⟨hcheck, hformals, hbody⟩ :=
    Form.every_procedureParts (ho.mono (Nat.le_trans hle hle₂)) hparts
  exact .pure h₂ ⟨D.closure_lambda h₂.here hcheck, hformals, hbody⟩

theorem Lockstep.makeMu (h : P.At i σ τ) {operands : Value} (span : Span)
    (ho : D.Fine σ.frames.size operands) :
    P.Lockstep i σ τ (Form.makeMu operands span) (Form.makeMu operands span) D.Fine := by
  refine .bind h (.check h _) ?_
  rintro ⟨formals, body⟩ σ₁ τ₁ hle h₁ hparts
  refine .bind h₁ (.freshIdentity h₁) ?_
  intro id σ₂ τ₂ hle₂ h₂ _
  obtain ⟨hcheck, hformals, hbody⟩ :=
    Form.every_procedureParts (ho.mono (Nat.le_trans hle hle₂)) hparts
  exact .pure h₂ ⟨D.closure_mu hcheck, hformals, hbody⟩

namespace Evaluations

theorem evalOption (heval : P.Evaluations eval eval') (h : P.At i σ τ) {e : Option Value}
    (he : ∀ v, e = some v → D.Fine σ.frames.size v) :
    P.Lockstep i σ τ (Form.evalOption eval i e) (Form.evalOption eval' i e) D.Fine := by
  cases e with
  | none => exact .fail h _ _
  | some e => exact heval e i σ τ h (he e rfl)

/-! ## Sequences -/

theorem conjunction (heval : P.Evaluations eval eval') {es : List Value} :
    ∀ {σ τ : State} {last : Value}, P.At i σ τ → D.Fine σ.frames.size last →
      (∀ e ∈ es, D.Fine σ.frames.size e) →
      P.Lockstep i σ τ (Form.conjunction eval i last es) (Form.conjunction eval' i last es)
        D.Fine := by
  induction es with
  | nil => exact fun h hlast _ => .pure h hlast
  | cons e es ih =>
      intro σ τ last h _ hes
      obtain ⟨he, hes⟩ := List.forall_mem_cons.mp hes
      refine .bind h (heval e i σ τ h he) ?_
      intro v σ₁ τ₁ hle h₁ hv
      by_cases ht : v.isTrue
      · rw [if_pos ht, if_pos ht]
        exact ih h₁ hv (Discipline.fine_mono hes hle)
      · rw [if_neg ht, if_neg ht]
        exact .pure h₁ hv

theorem disjunction (heval : P.Evaluations eval eval') {none : Value} {es : List Value} :
    ∀ {σ τ : State}, P.At i σ τ → D.Fine σ.frames.size none →
      (∀ e ∈ es, D.Fine σ.frames.size e) →
      P.Lockstep i σ τ (Form.disjunction eval i none es) (Form.disjunction eval' i none es)
        (D.Leaves i σ.frames.size) := by
  induction es with
  | nil => exact fun h hnone _ => .pure h hnone
  | cons e es ih =>
      intro σ τ h hnone hes
      obtain ⟨he, hes⟩ := List.forall_mem_cons.mp hes
      cases es with
      | nil => exact .pure h ⟨he, h.here, .inl rfl⟩
      | cons e' es =>
          refine .bind h (heval e i σ τ h he) ?_
          intro v σ₁ τ₁ hle h₁ hv
          by_cases ht : v.isTrue
          · rw [if_pos ht, if_pos ht]
            exact .pure h₁ hv
          · rw [if_neg ht, if_neg ht]
            exact (ih h₁ (hnone.mono hle) (Discipline.fine_mono hes hle)).weaken
              fun n next _ hn => hn.since hle

theorem sequence (heval : P.Evaluations eval eval') {es : List Value} :
    ∀ {σ τ : State} {last : Value}, P.At i σ τ → D.Fine σ.frames.size last →
      (∀ e ∈ es, D.Fine σ.frames.size e) →
      P.Lockstep i σ τ (Form.sequence eval i last es) (Form.sequence eval' i last es) D.Fine := by
  induction es with
  | nil => exact fun h hlast _ => .pure h hlast
  | cons e es ih =>
      intro σ τ last h _ hes
      obtain ⟨he, hes⟩ := List.forall_mem_cons.mp hes
      exact .bind h (heval e i σ τ h he) fun v σ₁ τ₁ hle h₁ hv =>
        ih h₁ hv (Discipline.fine_mono hes hle)

theorem body (heval : P.Evaluations eval eval') {span : Span} {es : List Value} :
    ∀ {σ τ : State}, P.At i σ τ → (∀ e ∈ es, D.Fine σ.frames.size e) →
      P.Lockstep i σ τ (Form.body eval i span es) (Form.body eval' i span es)
        (D.Leaves i σ.frames.size) := by
  induction es with
  | nil => exact fun h _ => .fail h _ _
  | cons e es ih =>
      intro σ τ h hes
      obtain ⟨he, hes⟩ := List.forall_mem_cons.mp hes
      cases es with
      | nil => exact .pure h ⟨he, h.here, .inl rfl⟩
      | cons e' es =>
          refine .bind h (heval e i σ τ h he) ?_
          intro v σ₁ τ₁ hle h₁ _
          exact (ih h₁ (Discipline.fine_mono hes hle)).weaken fun n next _ hn => hn.since hle

/-! ## Clauses -/

theorem test (heval : P.Evaluations eval eval') (h : P.At i σ τ) (clause : Value)
    {expr : Value} (body : Value) (isLast : Bool) (he : D.Fine σ.frames.size expr) :
    P.Lockstep i σ τ (Form.test eval i clause expr body isLast)
      (Form.test eval' i clause expr body isLast) D.Fine := by
  unfold Form.test
  by_cases helse : expr.symbol? = some "else"
  · rw [if_pos helse, if_pos helse]
    split
    · exact .fail h _ _
    · split
      · exact .fail h _ _
      · exact .pure h trivial
  · rw [if_neg helse, if_neg helse]
    exact heval expr i σ τ h he

theorem clauses (heval : P.Evaluations eval eval') {cs : List Value} :
    ∀ {σ τ : State}, P.At i σ τ → (∀ c ∈ cs, D.Fine σ.frames.size c) →
      P.Lockstep i σ τ (Form.clauses eval i cs) (Form.clauses eval' i cs)
        (D.Leaves i σ.frames.size) := by
  induction cs with
  | nil => exact fun h _ => .pure h trivial
  | cons c cs ih =>
      intro σ τ h hcs
      obtain ⟨hc, hcs⟩ := List.forall_mem_cons.mp hcs
      refine .bind h (.check h _) ?_
      intro _ σ₁ τ₁ hle₁ h₁ _
      refine .bind h₁ (.check h₁ _) ?_
      rintro ⟨expr, body⟩ σ₂ τ₂ hle₂ h₂ hu
      have hle := Nat.le_trans hle₁ hle₂
      obtain ⟨hexpr, hbody⟩ := Form.every_uncons (hc.mono hle) hu
      refine .bind h₂ (heval.test h₂ c body cs.isEmpty hexpr) ?_
      intro v σ₃ τ₃ hle₃ h₃ hv
      have hle' := Nat.le_trans hle hle₃
      by_cases ht : v.isTrue
      · rw [if_pos ht, if_pos ht]
        split
        · exact .pure h₃ hv
        · exact .pure h₃
            ⟨Form.every_bodyExpression (Discipline.Fine.mono hbody hle₃), h₃.here, .inl rfl⟩
      · rw [if_neg ht, if_neg ht]
        exact (ih h₃ (Discipline.fine_mono hcs hle')).weaken fun n next _ hn => hn.since hle'

/-! ## Binding forms -/

theorem letBindings (heval : P.Evaluations eval eval') {bs : List Value} :
    ∀ {σ τ : State} {made : List (String × Value)}, P.At i σ τ →
      (∀ b ∈ bs, D.Fine σ.frames.size b) → (∀ b ∈ made, D.Fine σ.frames.size b.2) →
      P.Lockstep i σ τ (Form.letBindings eval i made bs) (Form.letBindings eval' i made bs)
        fun n made => ∀ b ∈ made, D.Fine n b.2 := by
  induction bs with
  | nil => exact fun h _ hmade => .pure h hmade
  | cons b bs ih =>
      intro σ τ made h hbs hmade
      obtain ⟨hb, hbs⟩ := List.forall_mem_cons.mp hbs
      refine .bind h (.check h _) ?_
      intro _ σ₁ τ₁ hle₁ h₁ _
      refine .bind h₁ (.check h₁ _) ?_
      rintro ⟨target, values⟩ σ₂ τ₂ hle₂ h₂ hu
      have hle := Nat.le_trans hle₁ hle₂
      have hvalues := (Form.every_uncons (hb.mono hle) hu).2
      refine .bind h₂ (heval.evalOption h₂ fun e he => hvalues.car? he) ?_
      intro v σ₃ τ₃ hle₃ h₃ hv
      have hle' := Nat.le_trans hle hle₃
      cases target.symbol? with
      | none => exact .fail h₃ _ _
      | some name =>
          exact ih h₃ (Discipline.fine_mono hbs hle')
            (Frame.forall_insert name hv (Discipline.fine_bindings_mono hmade hle'))

theorem definition (heval : P.Evaluations eval eval') (h : P.At i σ τ) {operands : Value}
    (span : Span) (ho : D.Fine σ.frames.size operands) :
    P.Lockstep i σ τ (Form.definition eval i operands span)
      (Form.definition eval' i operands span) D.Fine := by
  refine .bind h (.check h _) ?_
  intro _ σ₁ τ₁ hle₁ h₁ _
  refine .bind h₁ (.check h₁ _) ?_
  rintro ⟨target, rest⟩ σ₂ τ₂ hle₂ h₂ hu
  obtain ⟨htarget, hrest⟩ := Form.every_uncons (ho.mono (Nat.le_trans hle₁ hle₂)) hu
  cases target with
  | symbol name nspan =>
      refine .bind h₂ (.check h₂ _) ?_
      intro _ σ₃ τ₃ hle₃ h₃ _
      refine .bind h₃ (heval.evalOption h₃ fun e he =>
        (Discipline.Fine.mono hrest hle₃).car? he) ?_
      intro v σ₄ τ₄ _ h₄ hv
      exact .bind h₄ (.bindIn h₄ name hv) fun _ σ₅ τ₅ _ h₅ _ => .pure h₅ trivial
  | pair id name formals pspan =>
      refine .bind h₂ (.makeLambda h₂ span ⟨htarget.2, hrest⟩) ?_
      intro procedure σ₃ τ₃ hle₃ h₃ hp
      exact .bind h₃ (.define h₃ name hp) fun _ σ₄ τ₄ hle₄ h₄ _ =>
        .pure h₄ (Discipline.Fine.mono htarget.1 (Nat.le_trans hle₃ hle₄))
  | _ => exact .fail h₂ _ _

theorem letIn (heval : P.Evaluations eval eval') (h : P.At i σ τ) {operands : Value}
    (span : Span) (ho : D.Fine σ.frames.size operands) :
    P.Lockstep i σ τ (Form.perform eval i operands span .letIn)
      (Form.perform eval' i operands span .letIn) (D.Leaves i σ.frames.size) := by
  refine .bind h (.check h _) ?_
  intro _ σ₁ τ₁ hle₁ h₁ _
  refine .bind h₁ (.check h₁ _) ?_
  rintro ⟨bindings, exprs⟩ σ₂ τ₂ hle₂ h₂ hu
  have hle := Nat.le_trans hle₁ hle₂
  obtain ⟨hbindings, hexprs⟩ := Form.every_uncons (ho.mono hle) hu
  by_cases hproper : (!bindings.isProper) = true
  · simp only [hproper, if_true]
    exact .fail h₂ _ _
  · simp only [hproper]
    refine .bind h₂ (heval.letBindings h₂ hbindings.elements fun _ hb => by cases hb) ?_
    intro made σ₃ τ₃ hle₃ h₃ hmade
    -- The body is evaluated in the new frame, which was not there at the start of the form.
    refine Lockstep.bind_inside (.newFrame h₃ h₃.here hmade) ?_
    intro j σ₄ τ₄ hle₄ hs₄ hrel₄ hj
    have hle' := Nat.le_trans hle₃ hle₄
    refine ⟨j, .inr hj.2, ?_⟩
    refine (heval.body ⟨hs₄, hrel₄, hj.1⟩
      (Discipline.fine_mono hexprs.elements hle')).weaken ?_
    intro n next hle₅ hn
    exact hn.inside (Nat.le_trans (Nat.le_trans hle hle₃) hj.2)
      (Nat.le_trans hle hle')

/-- Forms keep the discipline, and they agree when the evaluations of operands do. -/
theorem perform (heval : P.Evaluations eval eval') (h : P.At i σ τ) {operands : Value}
    (span : Span) (ho : D.Fine σ.frames.size operands) (form : Form) :
    P.Lockstep i σ τ (form.perform eval i operands span) (form.perform eval' i operands span)
      (D.Leaves i σ.frames.size) := by
  have done : ∀ {x y : Action Value}, P.Lockstep i σ τ x y D.Fine →
      P.Lockstep i σ τ (x >>= fun v => Pure.pure (Next.done v))
        (y >>= fun v => Pure.pure (Next.done v)) (D.Leaves i σ.frames.size) :=
    fun hxy => .bind h hxy fun v σ₁ τ₁ _ h₁ hv => .pure h₁ hv
  cases form with
  | and => exact done (heval.conjunction h trivial ho.elements)
  | begin =>
      refine .bind h (.check h _) ?_
      intro _ σ₁ τ₁ hle h₁ _
      exact .bind h₁ (heval.sequence h₁ trivial (Discipline.fine_mono ho.elements hle))
        fun v σ₂ τ₂ _ h₂ hv => .pure h₂ hv
  | cond => exact heval.clauses h ho.elements
  | define => exact done (heval.definition h span ho)
  | ifElse =>
      refine .bind h (.check h _) ?_
      intro _ σ₁ τ₁ hle₁ h₁ _
      refine .bind h₁ (heval.evalOption h₁ fun e he => (ho.mono hle₁).car? he) ?_
      intro v σ₂ τ₂ hle₂ h₂ hv
      have hle := Nat.le_trans hle₁ hle₂
      cases hbranch : operands.elements[if v.isTrue then 1 else 2]? with
      | none => exact .pure h₂ trivial
      | some e =>
          exact .pure h₂ ⟨(ho.mono hle).elements e (List.mem_of_getElem? hbranch), h₂.here, .inl rfl⟩
  | lambda => exact done (.makeLambda h span ho)
  | letIn => exact heval.letIn h span ho
  | mu => exact done (.makeMu h span ho)
  | or => exact heval.disjunction h trivial ho.elements
  | quote =>
      refine .bind h (.check h _) ?_
      intro _ σ₁ τ₁ hle₁ h₁ _
      refine .bind h₁ (.check h₁ _) ?_
      rintro ⟨v, rest⟩ σ₂ τ₂ hle₂ h₂ hu
      exact .pure h₂ (Form.every_uncons (ho.mono (Nat.le_trans hle₁ hle₂)) hu).1

end Evaluations

end Pairing

end DualScope
