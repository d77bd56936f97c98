import DualScope.Form
import DualScope.Proofs.Sharing.Action

/-!
# Forms keep a ledger

The operands of a form are recorded, for the only pair of an expression that need not be is the
outermost one. So a form hands recorded operands to the evaluator, puts them into closures, or
gives them back, and all that it makes itself is a body behind `begin`, which is left to be run.
-/

namespace DualScope

/-- A value that is done with is recorded, an expression that is left can be run. -/
def Next.Recorded (κ : Ledger) : Next → Prop
  | .done v => v.Recorded κ
  | .eval e _ => e.Runnable κ

namespace Form

open Action.Shares (pure fail ofExcept)

variable {eval : Evaluation} {κ : Ledger}

/-! ## Operands that are looked at -/

/-- Both parts are recorded. -/
def RecordedParts (κ : Ledger) (parts : Value × Value) : Prop :=
  parts.1.Recorded κ ∧ parts.2.Recorded κ

theorem shares_checkLength (v : Value) (least : Nat) (most : Option Nat) :
    (Action.ofExcept (checkLength v least most)).Shares κ fun _ _ => True :=
  ofExcept fun _ _ => trivial

theorem shares_uncons {v : Value} (h : v.Recorded κ) :
    (Action.ofExcept (uncons v)).Shares κ RecordedParts :=
  ofExcept fun _ hu => recorded_uncons h.runnable hu

theorem shares_procedureParts {operands : Value} (h : operands.Runnable κ) :
    (Action.ofExcept (procedureParts operands)).Shares κ fun κ' parts =>
      parts.1.Recorded κ' ∧ parts.2.Runnable κ' :=
  ofExcept fun _ hp => runnable_procedureParts h hp

theorem shares_makeLambda (i : FrameId) {operands : Value} (span : Span)
    (h : operands.Runnable κ) : (makeLambda i operands span).Shares κ Value.Recorded := by
  refine (shares_procedureParts h).bind fun κ₁ parts _ hparts => ?_
  refine Action.Shares.freshIdentity.bind fun κ₂ id hκ₂ _ => pure ?_
  exact ⟨hparts.1.mono hκ₂, hparts.2.mono hκ₂⟩

theorem shares_makeMu {operands : Value} (span : Span) (h : operands.Runnable κ) :
    (makeMu operands span).Shares κ Value.Recorded := by
  refine (shares_procedureParts h).bind fun κ₁ parts _ hparts => ?_
  refine Action.Shares.freshIdentity.bind fun κ₂ id hκ₂ _ => pure ?_
  exact ⟨hparts.1.mono hκ₂, hparts.2.mono hκ₂⟩

section

variable (heval : eval.Shares) (i : FrameId)

include heval

theorem shares_operand {e : Value} (h : e.Recorded κ) : (eval e i).Shares κ Value.Recorded :=
  heval κ e i h.runnable

theorem shares_evalOption {e : Option Value} (h : ∀ v ∈ e, v.Recorded κ) :
    (evalOption eval i e).Shares κ Value.Recorded := by
  cases e with
  | none => exact fail _
  | some e => exact shares_operand heval i (h e rfl)

/-! ## Sequences -/

theorem shares_conjunction {last : Value} {es : List Value} (hlast : last.Recorded κ)
    (hes : ∀ e ∈ es, e.Recorded κ) : (conjunction eval i last es).Shares κ Value.Recorded := by
  induction es generalizing last κ with
  | nil => exact pure hlast
  | cons e es ih =>
      obtain ⟨he, hes⟩ := List.forall_mem_cons.mp hes
      refine (shares_operand heval i he).bind fun κ₁ v hκ₁ hv => ?_
      split
      · exact ih hv (Value.recorded_mono hes hκ₁)
      · exact pure hv

theorem shares_disjunction {none : Value} {es : List Value} (hnone : none.Recorded κ)
    (hes : ∀ e ∈ es, e.Recorded κ) : (disjunction eval i none es).Shares κ Next.Recorded := by
  induction es generalizing κ with
  | nil => exact pure hnone
  | cons e es ih =>
      obtain ⟨he, hes⟩ := List.forall_mem_cons.mp hes
      cases es with
      | nil => exact pure he.runnable
      | cons e' es =>
          refine (shares_operand heval i he).bind fun κ₁ v hκ₁ hv => ?_
          split
          · exact pure hv
          · exact ih (hnone.mono hκ₁) (Value.recorded_mono hes hκ₁)

theorem shares_sequence {last : Value} {es : List Value} (hlast : last.Recorded κ)
    (hes : ∀ e ∈ es, e.Recorded κ) : (sequence eval i last es).Shares κ Value.Recorded := by
  induction es generalizing last κ with
  | nil => exact pure hlast
  | cons e es ih =>
      obtain ⟨he, hes⟩ := List.forall_mem_cons.mp hes
      exact (shares_operand heval i he).bind fun κ₁ v hκ₁ hv =>
        ih hv (Value.recorded_mono hes hκ₁)

theorem shares_body (span : Span) {es : List Value} (hes : ∀ e ∈ es, e.Recorded κ) :
    (body eval i span es).Shares κ Next.Recorded := by
  induction es generalizing κ with
  | nil => exact fail _
  | cons e es ih =>
      obtain ⟨he, hes⟩ := List.forall_mem_cons.mp hes
      cases es with
      | nil => exact pure he.runnable
      | cons e' es =>
          exact (shares_operand heval i he).bind fun κ₁ _ hκ₁ _ =>
            ih (Value.recorded_mono hes hκ₁)

/-! ## Clauses of `cond` -/

theorem shares_test (clause : Value) {expr : Value} (body : Value) (isLast : Bool)
    (hexpr : expr.Recorded κ) :
    (test eval i clause expr body isLast).Shares κ Value.Recorded := by
  unfold test
  split
  · split
    · exact fail _
    · split
      · exact fail _
      · exact pure trivial
  · exact shares_operand heval i hexpr

theorem shares_clauses {cs : List Value} (hcs : ∀ c ∈ cs, c.Recorded κ) :
    (clauses eval i cs).Shares κ Next.Recorded := by
  induction cs generalizing κ with
  | nil => exact pure trivial
  | cons c cs ih =>
      obtain ⟨hc, hcs⟩ := List.forall_mem_cons.mp hcs
      refine (shares_checkLength c 1 none).bind fun κ₁ _ hκ₁ _ => ?_
      refine (shares_uncons (hc.mono hκ₁)).bind fun κ₂ parts hκ₂ hparts => ?_
      obtain ⟨expr, body⟩ := parts
      refine (shares_test heval i c body cs.isEmpty hparts.1).bind fun κ₃ v hκ₃ hv => ?_
      split
      · split
        · exact pure hv
        · exact pure (runnable_bodyExpression (hparts.2.mono hκ₃))
      · exact ih (Value.recorded_mono hcs (hκ₁.trans (hκ₂.trans hκ₃)))

/-! ## Binding forms -/

theorem shares_letBindings {made : List (String × Value)} {bs : List Value}
    (hmade : RecordedBindings κ made) (hbs : ∀ b ∈ bs, b.Recorded κ) :
    (letBindings eval i made bs).Shares κ RecordedBindings := by
  induction bs generalizing made κ with
  | nil => exact pure hmade
  | cons b bs ih =>
      obtain ⟨hb, hbs⟩ := List.forall_mem_cons.mp hbs
      refine (shares_checkLength b 1 (some 2)).bind fun κ₁ _ hκ₁ _ => ?_
      refine (shares_uncons (hb.mono hκ₁)).bind fun κ₂ parts hκ₂ hparts => ?_
      obtain ⟨target, values⟩ := parts
      have hvalue : ∀ v ∈ values.car?, v.Recorded κ₂ := fun v hv => hparts.2.car? hv
      refine (shares_evalOption heval i hvalue).bind fun κ₃ v hκ₃ hv => ?_
      have hκ := hκ₁.trans (hκ₂.trans hκ₃)
      split
      · exact ih ((hmade.mono hκ).insert _ hv) (Value.recorded_mono hbs hκ)
      · exact fail _

theorem shares_definition {operands : Value} (span : Span) (h : operands.Recorded κ) :
    (definition eval i operands span).Shares κ Value.Recorded := by
  refine (shares_checkLength operands 2 none).bind fun κ₁ _ hκ₁ _ => ?_
  refine (shares_uncons (h.mono hκ₁)).bind fun κ₂ parts hκ₂ hparts => ?_
  obtain ⟨target, rest⟩ := parts
  obtain ⟨htarget, hrest⟩ := hparts
  cases target with
  | symbol name nspan =>
      refine (shares_checkLength operands 2 (some 2)).bind fun κ₃ _ hκ₃ _ => ?_
      have hvalue : ∀ v ∈ rest.car?, v.Recorded κ₃ := fun v hv => (hrest.mono hκ₃).car? hv
      refine (shares_evalOption heval i hvalue).bind fun κ₄ v hκ₄ hv => ?_
      exact (Action.Shares.bindIn i name hv).bind fun _ _ _ _ => pure trivial
  | pair id name formals pspan =>
      -- The operands of the procedure are a new pair, and run rather than recorded.
      obtain ⟨-, hname, hformals⟩ := htarget
      have hoperands : Value.Runnable κ₂ (.pair .anonymous formals rest pspan) :=
        ⟨hformals, hrest⟩
      refine (shares_makeLambda i span hoperands).bind fun κ₃ procedure hκ₃ hv => ?_
      refine (Action.Shares.define i name hv).bind fun κ₄ _ hκ₄ _ => pure ?_
      exact hname.mono (hκ₃.trans hκ₄)
  | _ => exact fail _

/-! ## All forms -/

theorem shares_perform {operands : Value} (span : Span) (h : operands.Recorded κ) (form : Form) :
    (form.perform eval i operands span).Shares κ Next.Recorded := by
  have helements := h.elements
  cases form with
  | and =>
      have hlast : Value.Recorded κ (.boolean true operands.span) := trivial
      exact (shares_conjunction heval i hlast helements).bind fun _ _ _ hv => pure hv
  | or => exact shares_disjunction heval i trivial helements
  | ifElse =>
      refine (shares_checkLength operands 2 (some 3)).bind fun κ₁ _ hκ₁ _ => ?_
      have htest : ∀ v ∈ operands.car?, v.Recorded κ₁ := fun v hv => (h.mono hκ₁).car? hv
      refine (shares_evalOption heval i htest).bind fun κ₂ v hκ₂ _ => ?_
      split
      · next e he =>
          have he := helements e (List.mem_of_getElem? he)
          exact pure (he.mono (hκ₁.trans hκ₂)).runnable
      · exact pure trivial
  | cond => exact shares_clauses heval i helements
  | begin =>
      refine (shares_checkLength operands 1 none).bind fun κ₁ _ hκ₁ _ => ?_
      have hlast : Value.Recorded κ₁ (.okay .none) := trivial
      exact (shares_sequence heval i hlast (Value.recorded_mono helements hκ₁)).bind
        fun _ _ _ hv => pure hv
  | lambda => exact (shares_makeLambda i span h.runnable).bind fun _ _ _ hv => pure hv
  | mu => exact (shares_makeMu span h.runnable).bind fun _ _ _ hv => pure hv
  | define => exact (shares_definition heval i span h).bind fun _ _ _ hv => pure hv
  | quote =>
      refine (shares_checkLength operands 1 (some 1)).bind fun κ₁ _ hκ₁ _ => ?_
      exact (shares_uncons (h.mono hκ₁)).bind fun _ _ _ hparts => pure hparts.1
  | letIn =>
      refine (shares_checkLength operands 2 none).bind fun κ₁ _ hκ₁ _ => ?_
      refine (shares_uncons (h.mono hκ₁)).bind fun κ₂ parts hκ₂ hparts => ?_
      obtain ⟨hbindings, hexprs⟩ := hparts
      dsimp only
      split
      · exact fail _
      · refine (shares_letBindings heval i recordedBindings_nil hbindings.elements).bind
          fun κ₃ made hκ₃ hmade => ?_
        refine (Action.Shares.newFrame hmade).bind fun κ₄ frame hκ₄ _ => ?_
        exact shares_body heval frame operands.span
          (Value.recorded_mono hexprs.elements (hκ₃.trans hκ₄))

end

end Form

end DualScope
