import DualScope.Form
import DualScope.Proofs.Likeness.Action

/-!
# Forms that are alike

A form is told by its name, and what it does depends on how many operands there are, on which
of them are names, and on which values are true. None of this is any different for operands
that are alike. So a form does alike with them, if what it evaluates them with does.
-/

namespace DualScope

variable {L : Likeness}

inductive Next.Like (L : Likeness) : Next → Next → Prop
  | done {v v' : Value} : v.Like L v' → Like L (.done v) (.done v')
  | eval {e e' : Value} (i : FrameId) : e.Like L e' → Like L (.eval e i) (.eval e' i)

namespace Form

variable {operands operands' : Value} {span span' : Span}

/-! ## Shapes -/

theorem like_checkLength (h : operands.Like L operands') (least : Nat) (most : Option Nat) :
    LikeExcept (EvalError.Like L) Eq (checkLength operands least most)
      (checkLength operands' least most) := by
  rw [checkLength, checkLength, h.length?]
  cases operands.length? with
  | none => exact .error (.malformed h)
  | some n =>
      dsimp only
      split
      · exact .error (.badForm (.tooFew least n) h.span)
      · cases most with
        | none => exact .ok rfl
        | some bound =>
            dsimp only
            split
            · exact .error (.badForm (.tooMany bound n) h.span)
            · exact .ok rfl

theorem like_checkFormals (h : operands.Like L operands') :
    LikeExcept (EvalError.Like L) Eq (checkFormals operands) (checkFormals operands') := by
  suffices hafter : ∀ seen, LikeExcept (EvalError.Like L) Eq (checkFormalsAfter seen operands)
      (checkFormalsAfter seen operands') from hafter []
  induction h with
  | nil _ => exact fun _ => .ok rfl
  | pair _ hcar _ _ _ ih =>
      intro seen
      cases hcar with
      | symbol _ hs =>
          rw [checkFormalsAfter, checkFormalsAfter]
          split
          · exact .error (.duplicateFormal _ hs)
          · exact ih _
      | _ => exact .error (.badFormal (by constructor <;> assumption))
  | _ => exact fun _ => .error (.badFormal (by constructor <;> assumption))

/-- Both parts are alike. -/
def LikeParts (L : Likeness) (p p' : Value × Value) : Prop :=
  p.1.Like L p'.1 ∧ p.2.Like L p'.2

theorem like_uncons (h : operands.Like L operands') :
    LikeExcept (EvalError.Like L) (LikeParts L) (uncons operands) (uncons operands') := by
  cases h with
  | pair _ hcar hcdr _ => exact .ok ⟨hcar, hcdr⟩
  | _ => exact .error (.malformed (by constructor <;> assumption))

theorem like_bodyExpression (h : operands.Like L operands') :
    (bodyExpression operands).Like L (bodyExpression operands') := by
  have hbegin : (Value.pair .anonymous (.symbol "begin" operands.span) operands operands.span).Like
      L (.pair .anonymous (.symbol "begin" operands'.span) operands' operands'.span) :=
    .pair L.identity_anonymous (.symbol L.name_begin h.span) h h.span
  cases h with
  | pair _ hcar hcdr _ =>
      cases hcdr with
      | nil _ => exact hcar
      | _ => exact hbegin
  | _ => exact hbegin

theorem like_procedureParts (h : operands.Like L operands') :
    LikeExcept (EvalError.Like L) (LikeParts L) (procedureParts operands)
      (procedureParts operands') := by
  refine .bind (like_checkLength h 2 none) fun _ _ _ => .bind (like_uncons h) ?_
  rintro ⟨formals, body⟩ ⟨formals', body'⟩ ⟨hformals, hbody⟩
  exact .bind (like_checkFormals hformals) fun _ _ _ => .ok ⟨hformals, like_bodyExpression hbody⟩

/-! ## What forms do -/

section

variable {C : Accord L} {eval eval' : Evaluation}

theorem like_evalOption (heval : C.Evaluations eval eval') (i : FrameId) {e e' : Option Value}
    (h : Option.Rel (Value.Like L) e e') :
    C.Agree (Value.Like L) (evalOption eval i e) (evalOption eval' i e') := by
  cases h with
  | some he => exact heval _ _ i he
  | none => exact .fail .missingExpression

theorem like_conjunction (heval : C.Evaluations eval eval') (i : FrameId) {es es' : List Value}
    (h : List.Forall₂ (Value.Like L) es es') {last last' : Value} (hlast : last.Like L last') :
    C.Agree (Value.Like L) (conjunction eval i last es) (conjunction eval' i last' es') := by
  induction h generalizing last last' with
  | nil => exact .pure hlast
  | cons he _ ih =>
      refine .bind (heval _ _ i he) fun v v' hv => ?_
      rw [hv.isTrue]
      split
      · exact ih hv
      · exact .pure hv

theorem like_disjunction (heval : C.Evaluations eval eval') (i : FrameId) {es es' : List Value}
    (h : List.Forall₂ (Value.Like L) es es') {none none' : Value} (hnone : none.Like L none') :
    C.Agree (Next.Like L) (disjunction eval i none es) (disjunction eval' i none' es') := by
  induction h with
  | nil => exact .pure (.done hnone)
  | cons he hes ih =>
      cases hes with
      | nil => exact .pure (.eval i he)
      | cons he₂ hes =>
          refine .bind (heval _ _ i he) fun v v' hv => ?_
          rw [hv.isTrue]
          split
          · exact .pure (.done hv)
          · exact ih

theorem like_sequence (heval : C.Evaluations eval eval') (i : FrameId) {es es' : List Value}
    (h : List.Forall₂ (Value.Like L) es es') {last last' : Value} (hlast : last.Like L last') :
    C.Agree (Value.Like L) (sequence eval i last es) (sequence eval' i last' es') := by
  induction h generalizing last last' with
  | nil => exact .pure hlast
  | cons he _ ih => exact .bind (heval _ _ i he) fun v v' hv => ih hv

theorem like_body (heval : C.Evaluations eval eval') (i : FrameId) (hs : L.span span span')
    {es es' : List Value} (h : List.Forall₂ (Value.Like L) es es') :
    C.Agree (Next.Like L) (body eval i span es) (body eval' i span' es') := by
  induction h with
  | nil => exact .fail (.badForm .noBody hs)
  | cons he hes ih =>
      cases hes with
      | nil => exact .pure (.eval i he)
      | cons he₂ hes => exact .bind (heval _ _ i he) fun _ _ _ => ih

theorem like_test (heval : C.Evaluations eval eval') (i : FrameId)
    {clause clause' expr expr' body body' : Value} (hclause : clause.Like L clause')
    (hexpr : expr.Like L expr') (hbody : body.Like L body') (isLast : Bool) :
    C.Agree (Value.Like L) (test eval i clause expr body isLast)
      (test eval' i clause' expr' body' isLast) := by
  rw [test, test, hexpr.symbol?, hbody.isNil]
  split
  · split
    · exact .fail (.badElse .notLast hclause.span)
    · split
      · exact .fail (.badElse .empty hclause.span)
      · exact .pure (.boolean true hexpr.span)
  · exact heval _ _ i hexpr

theorem like_clauses (heval : C.Evaluations eval eval') (i : FrameId) {cs cs' : List Value}
    (h : List.Forall₂ (Value.Like L) cs cs') :
    C.Agree (Next.Like L) (clauses eval i cs) (clauses eval' i cs') := by
  induction h with
  | nil => exact .pure (.done (.okay (L.span_refl _)))
  | @cons clause clause' rest rest' hclause hrest ih =>
      have hlast : rest'.isEmpty = rest.isEmpty := by cases hrest <;> rfl
      refine .bind (.ofExcept (like_checkLength hclause 1 none)) fun _ _ _ => ?_
      refine .bind (.ofExcept (like_uncons hclause)) ?_
      rintro ⟨expr, body⟩ ⟨expr', body'⟩ ⟨hexpr, hbody⟩
      dsimp only
      rw [hlast]
      refine .bind (like_test heval i hclause hexpr hbody _) fun v v' hv => ?_
      rw [hv.isTrue, hbody.isNil]
      split
      · split
        · exact .pure (.done hv)
        · exact .pure (.eval i (like_bodyExpression hbody))
      · exact ih

theorem like_letBindings (heval : C.Evaluations eval eval') (i : FrameId) {bs bs' : List Value}
    (h : List.Forall₂ (Value.Like L) bs bs') {made made' : List (String × Value)}
    (hmade : LikeBindings L made made') :
    C.Agree (LikeBindings L) (letBindings eval i made bs) (letBindings eval' i made' bs') := by
  induction h generalizing made made' with
  | nil => exact .pure hmade
  | cons hbinding _ ih =>
      refine .bind (.ofExcept (like_checkLength hbinding 1 (some 2))) fun _ _ _ => ?_
      refine .bind (.ofExcept (like_uncons hbinding)) ?_
      rintro ⟨target, values⟩ ⟨target', values'⟩ ⟨htarget, hvalues⟩
      refine .bind (like_evalOption heval i hvalues.car?) fun v v' hv => ?_
      rw [htarget.symbol?]
      cases hname : target.symbol? with
      | some name => exact ih (hmade.insert (htarget.name hname) hv)
      | none => exact .fail (.badTarget htarget)

theorem like_makeLambda (i : FrameId) (h : operands.Like L operands') (hs : L.span span span') :
    C.Agree (Value.Like L) (makeLambda i operands span) (makeLambda i operands' span') := by
  refine .bind (.ofExcept (like_procedureParts h)) ?_
  rintro ⟨formals, body⟩ ⟨formals', body'⟩ ⟨hformals, hbody⟩
  exact .bind C.freshIdentity fun _ _ hid => .pure (.lambda i hid hformals hbody hs)

theorem like_makeMu (h : operands.Like L operands') (hs : L.span span span') :
    C.Agree (Value.Like L) (makeMu operands span) (makeMu operands' span') := by
  refine .bind (.ofExcept (like_procedureParts h)) ?_
  rintro ⟨formals, body⟩ ⟨formals', body'⟩ ⟨hformals, hbody⟩
  exact .bind C.freshIdentity fun _ _ hid => .pure (.mu hid hformals hbody hs)

theorem like_definition (heval : C.Evaluations eval eval') (i : FrameId)
    (h : operands.Like L operands') (hs : L.span span span') :
    C.Agree (Value.Like L) (definition eval i operands span)
      (definition eval' i operands' span') := by
  refine .bind (.ofExcept (like_checkLength h 2 none)) fun _ _ _ => ?_
  refine .bind (.ofExcept (like_uncons h)) ?_
  rintro ⟨target, rest⟩ ⟨target', rest'⟩ ⟨htarget, hrest⟩
  cases htarget with
  | symbol hname ht =>
      refine .bind (.ofExcept (like_checkLength h 2 (some 2))) fun _ _ _ => ?_
      refine .bind (like_evalOption heval i hrest.car?) fun v v' hv => ?_
      exact .bind (C.bindIn i hname hv) fun _ _ _ => .pure (.symbol hname ht)
  | pair hid hcar hcdr ht =>
      have hparts := Value.Like.pair L.identity_anonymous hcdr hrest ht
      refine .bind (like_makeLambda i hparts hs) fun p p' hp => ?_
      exact .bind (.define i hcar hp) fun _ _ _ => .pure hcar
  | _ => exact .fail (.badDefinition (by constructor <;> assumption))

theorem rel_getElem? {R : α → β → Prop} {as : List α} {bs : List β} (h : List.Forall₂ R as bs)
    (n : Nat) : Option.Rel R as[n]? bs[n]? := by
  induction h generalizing n with
  | nil => exact .none
  | cons hab _ ih =>
      cases n with
      | zero => exact .some hab
      | succ n => exact ih n

theorem like_perform (heval : C.Evaluations eval eval') (i : FrameId)
    (h : operands.Like L operands') (hs : L.span span span') (form : Form) :
    C.Agree (Next.Like L) (form.perform eval i operands span)
      (form.perform eval' i operands' span') := by
  cases form with
  | and =>
      exact .bind (like_conjunction heval i h.elements (.boolean true h.span)) fun _ _ hv =>
        .pure (.done hv)
  | or => exact like_disjunction heval i h.elements (.boolean false h.span)
  | ifElse =>
      refine .bind (.ofExcept (like_checkLength h 2 (some 3))) fun _ _ _ => ?_
      refine .bind (like_evalOption heval i h.car?) fun v v' hv => ?_
      rw [hv.isTrue]
      generalize (if v.isTrue then 1 else 2) = n
      rcases cases_of_rel (rel_getElem? h.elements n) with ⟨he, he'⟩ | ⟨e, e', he, he', hlike⟩
      · rw [he, he']
        exact .pure (.done (.okay (L.span_refl _)))
      · rw [he, he']
        exact .pure (.eval i hlike)
  | cond => exact like_clauses heval i h.elements
  | begin =>
      refine .bind (.ofExcept (like_checkLength h 1 none)) fun _ _ _ => ?_
      exact .bind (like_sequence heval i h.elements (.okay (L.span_refl _))) fun _ _ hv =>
        .pure (.done hv)
  | lambda => exact .bind (like_makeLambda i h hs) fun _ _ hv => .pure (.done hv)
  | mu => exact .bind (like_makeMu h hs) fun _ _ hv => .pure (.done hv)
  | define => exact .bind (like_definition heval i h hs) fun _ _ hv => .pure (.done hv)
  | quote =>
      refine .bind (.ofExcept (like_checkLength h 1 (some 1))) fun _ _ _ => ?_
      exact .bind (.ofExcept (like_uncons h)) fun _ _ hparts => .pure (.done hparts.1)
  | letIn =>
      refine .bind (.ofExcept (like_checkLength h 2 none)) fun _ _ _ => ?_
      refine .bind (.ofExcept (like_uncons h)) ?_
      rintro ⟨bindings, exprs⟩ ⟨bindings', exprs'⟩ ⟨hbindings, hexprs⟩
      dsimp only
      rw [hbindings.isProper]
      split
      · exact .fail (.badForm (.badBindings hbindings) hbindings.span)
      · refine .bind (like_letBindings heval i hbindings.elements .nil) fun made made' hmade => ?_
        refine .bind (C.newFrame i hmade) fun j j' hj => ?_
        subst hj
        exact like_body heval j h.span hexprs.elements

end

end Form

end DualScope
