import DualScope.Form
import DualScope.Proofs.Fitting.Action

/-!
# Forms keep spans in bounds

A form hands its operands to the evaluator, puts them into closures, or gives them back, and what
it makes itself has the span of the form or of its operands. The operands fit, so all this does.
What has been read in the meantime can only be more: a value that was found before fits all the
same.
-/

namespace DualScope

/-- The value or the expression that is left fits. -/
def Next.Fits (n : Nat) : Next → Prop
  | .done v => v.Fits n
  | .eval e _ => e.Fits n

namespace Form

open Action.Fits (pure fail ofExcept)

variable {texts : List String} {eval : Evaluation} {n : Nat}

/-! ## Operands that are looked at -/

theorem checked {v : Value} (h : v.Fits n) (least : Nat) (most : Option Nat) :
    (Action.ofExcept (checkLength v least most)).Fits texts n fun _ _ => True :=
  ofExcept (fits_checkLength h least most)

theorem taken {v : Value} (h : v.Fits n) : (Action.ofExcept (uncons v)).Fits texts n FitParts :=
  ofExcept (fits_uncons h)

section

variable (heval : eval.Fits texts) (i : FrameId)

include heval

theorem fits_evalOption {e : Option Value} (h : ∀ v ∈ e, v.Fits n) :
    (evalOption eval i e).Fits texts n Value.Fits := by
  cases e with
  | none => exact fail trivial
  | some e => exact heval n e i (h e rfl)

/-! ## Sequences -/

theorem fits_conjunction {last : Value} {es : List Value} (hlast : last.Fits n)
    (hes : ∀ e ∈ es, e.Fits n) : (conjunction eval i last es).Fits texts n Value.Fits := by
  induction es generalizing last n with
  | nil => exact pure hlast
  | cons e es ih =>
      obtain ⟨he, hes⟩ := List.forall_mem_cons.mp hes
      refine (heval n e i he).bind fun m v hm hv => ?_
      split
      · exact ih hv (Value.fits_mono hes hm)
      · exact pure hv

theorem fits_disjunction {none : Value} {es : List Value} (hnone : none.Fits n)
    (hes : ∀ e ∈ es, e.Fits n) : (disjunction eval i none es).Fits texts n Next.Fits := by
  induction es generalizing n with
  | nil => exact pure hnone
  | cons e es ih =>
      obtain ⟨he, hes⟩ := List.forall_mem_cons.mp hes
      cases es with
      | nil => exact pure he
      | cons e' es =>
          refine (heval n e i he).bind fun m v hm hv => ?_
          split
          · exact pure hv
          · exact ih (hnone.mono hm) (Value.fits_mono hes hm)

theorem fits_sequence {last : Value} {es : List Value} (hlast : last.Fits n)
    (hes : ∀ e ∈ es, e.Fits n) : (sequence eval i last es).Fits texts n Value.Fits := by
  induction es generalizing last n with
  | nil => exact pure hlast
  | cons e es ih =>
      obtain ⟨he, hes⟩ := List.forall_mem_cons.mp hes
      exact (heval n e i he).bind fun m v hm hv => ih hv (Value.fits_mono hes hm)

theorem fits_body {span : Span} {es : List Value} (hspan : span.Fits n)
    (hes : ∀ e ∈ es, e.Fits n) : (body eval i span es).Fits texts n Next.Fits := by
  induction es generalizing n with
  | nil => exact fail ⟨trivial, hspan⟩
  | cons e es ih =>
      obtain ⟨he, hes⟩ := List.forall_mem_cons.mp hes
      cases es with
      | nil => exact pure he
      | cons e' es =>
          exact (heval n e i he).bind fun m _ hm _ =>
            ih (hspan.mono hm) (Value.fits_mono hes hm)

/-! ## Clauses of `cond` -/

theorem fits_test {clause expr : Value} (body : Value) (isLast : Bool) (hclause : clause.Fits n)
    (hexpr : expr.Fits n) : (test eval i clause expr body isLast).Fits texts n Value.Fits := by
  unfold test
  split
  · split
    · exact fail hclause.span
    · split
      · exact fail hclause.span
      · exact pure hexpr.span
  · exact heval n expr i hexpr

theorem fits_clauses {cs : List Value} (hcs : ∀ c ∈ cs, c.Fits n) :
    (clauses eval i cs).Fits texts n Next.Fits := by
  induction cs generalizing n with
  | nil => exact pure (Span.fits_none n)
  | cons c cs ih =>
      obtain ⟨hc, hcs⟩ := List.forall_mem_cons.mp hcs
      refine (checked hc 1 none).bind fun m _ hm _ => ?_
      refine (taken (hc.mono hm)).bind fun k parts hk hparts => ?_
      obtain ⟨expr, body⟩ := parts
      have hc' := hc.mono (Nat.le_trans hm hk)
      refine (fits_test heval i body cs.isEmpty hc' hparts.1).bind fun l v hl hv => ?_
      split
      · split
        · exact pure hv
        · exact pure (fits_bodyExpression (hparts.2.mono hl))
      · exact ih (Value.fits_mono hcs (Nat.le_trans hm (Nat.le_trans hk hl)))

/-! ## Binding forms -/

theorem fits_letBindings {made : List (String × Value)} {bs : List Value}
    (hmade : FitBindings n made) (hbs : ∀ b ∈ bs, b.Fits n) :
    (letBindings eval i made bs).Fits texts n FitBindings := by
  induction bs generalizing made n with
  | nil => exact pure hmade
  | cons b bs ih =>
      obtain ⟨hb, hbs⟩ := List.forall_mem_cons.mp hbs
      refine (checked hb 1 (some 2)).bind fun m _ hm _ => ?_
      refine (taken (hb.mono hm)).bind fun k parts hk hparts => ?_
      obtain ⟨target, values⟩ := parts
      have hvalue : ∀ v ∈ values.car?, v.Fits k := fun v hv => hparts.2.car? hv
      refine (fits_evalOption heval i hvalue).bind fun l v hl hv => ?_
      have hle := Nat.le_trans hm (Nat.le_trans hk hl)
      split
      · exact ih ((hmade.mono hle).insert _ hv) (Value.fits_mono hbs hle)
      · exact fail (hparts.1.mono hl)

end

theorem fits_makeLambda (i : FrameId) {operands : Value} {span : Span} (h : operands.Fits n)
    (hspan : span.Fits n) : (makeLambda i operands span).Fits texts n Value.Fits := by
  refine (ofExcept (P := FitParts) (fits_procedureParts h)).bind fun m parts hm hparts => ?_
  refine Action.Fits.freshIdentity.bind fun k id hk _ => pure ?_
  exact ⟨hspan.mono (Nat.le_trans hm hk), hparts.1.mono hk, hparts.2.mono hk⟩

theorem fits_makeMu {operands : Value} {span : Span} (h : operands.Fits n)
    (hspan : span.Fits n) : (makeMu operands span).Fits texts n Value.Fits := by
  refine (ofExcept (P := FitParts) (fits_procedureParts h)).bind fun m parts hm hparts => ?_
  refine Action.Fits.freshIdentity.bind fun k id hk _ => pure ?_
  exact ⟨hspan.mono (Nat.le_trans hm hk), hparts.1.mono hk, hparts.2.mono hk⟩

section

variable (heval : eval.Fits texts) (i : FrameId)

include heval

theorem fits_definition {operands : Value} {span : Span} (h : operands.Fits n)
    (hspan : span.Fits n) : (definition eval i operands span).Fits texts n Value.Fits := by
  refine (checked h 2 none).bind fun m _ hm _ => ?_
  refine (taken (h.mono hm)).bind fun k parts hk hparts => ?_
  obtain ⟨target, rest⟩ := parts
  obtain ⟨htarget, hrest⟩ := hparts
  have hle := Nat.le_trans hm hk
  cases target with
  | symbol name nspan =>
      refine (checked (h.mono hle) 2 (some 2)).bind fun l _ hl _ => ?_
      have hvalue : ∀ v ∈ rest.car?, v.Fits l := fun v hv => (hrest.mono hl).car? hv
      refine (fits_evalOption heval i hvalue).bind fun j v hj hv => ?_
      refine (Action.Fits.bindIn i name hv).bind fun j' _ hj' _ => pure ?_
      exact htarget.mono (Nat.le_trans hl (Nat.le_trans hj hj'))
  | pair id name formals pspan =>
      obtain ⟨hpspan, hname, hformals⟩ := htarget
      have hoperands : Value.Fits k (.pair .anonymous formals rest pspan) :=
        ⟨hpspan, hformals, hrest⟩
      refine (fits_makeLambda i hoperands (hspan.mono hle)).bind fun l procedure hl hv => ?_
      refine (Action.Fits.define i (hname.mono hl) hv).bind fun j _ hj _ => pure ?_
      exact hname.mono (Nat.le_trans hl hj)
  | _ => exact fail htarget

/-! ## All forms -/

theorem fits_perform {operands : Value} {span : Span} (h : operands.Fits n) (hspan : span.Fits n)
    (form : Form) : (form.perform eval i operands span).Fits texts n Next.Fits := by
  have helements := h.elements
  cases form with
  | and =>
      have hlast : Value.Fits n (.boolean true operands.span) := h.span
      exact (fits_conjunction heval i hlast helements).bind fun _ _ _ hv => pure hv
  | or =>
      have hnone : Value.Fits n (.boolean false operands.span) := h.span
      exact fits_disjunction heval i hnone helements
  | ifElse =>
      refine (checked h 2 (some 3)).bind fun m _ hm _ => ?_
      have htest : ∀ v ∈ operands.car?, v.Fits m := fun v hv => (h.mono hm).car? hv
      refine (fits_evalOption heval i htest).bind fun k v hk _ => ?_
      split
      · next e he =>
          exact pure ((helements e (List.mem_of_getElem? he)).mono (Nat.le_trans hm hk))
      · exact pure (Span.fits_none _)
  | cond => exact fits_clauses heval i helements
  | begin =>
      refine (checked h 1 none).bind fun m _ hm _ => ?_
      have hlast : Value.Fits m (.okay .none) := Span.fits_none m
      have hsequence := fits_sequence heval i hlast (Value.fits_mono helements hm)
      exact hsequence.bind fun _ _ _ hv => pure hv
  | lambda => exact (fits_makeLambda i h hspan).bind fun _ _ _ hv => pure hv
  | mu => exact (fits_makeMu h hspan).bind fun _ _ _ hv => pure hv
  | define => exact (fits_definition heval i h hspan).bind fun _ _ _ hv => pure hv
  | quote =>
      refine (checked h 1 (some 1)).bind fun m _ hm _ => ?_
      exact (taken (h.mono hm)).bind fun _ _ _ hparts => pure hparts.1
  | letIn =>
      refine (checked h 2 none).bind fun m _ hm _ => ?_
      refine (taken (h.mono hm)).bind fun k parts hk hparts => ?_
      obtain ⟨hbindings, hexprs⟩ := hparts
      dsimp only
      split
      · exact fail ⟨hbindings, hbindings.span⟩
      · refine (fits_letBindings heval i fitBindings_nil hbindings.elements).bind
          fun l made hl hmade => ?_
        refine (Action.Fits.newFrame hmade).bind fun j frame hj _ => ?_
        have hle := Nat.le_trans hl hj
        have hoperands := h.mono (Nat.le_trans hm (Nat.le_trans hk hle))
        exact fits_body heval frame hoperands.span (Value.fits_mono hexprs.elements hle)

end

end Form

end DualScope
