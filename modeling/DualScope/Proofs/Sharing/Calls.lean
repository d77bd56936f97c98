import DualScope.Proofs.Constants
import DualScope.Proofs.Sharing.Forms

/-!
# Texts and calls keep a ledger

What is read from a text has no closures in it, so that all of it gets into the ledger when it is
taken up. A primitive gives back a part of an argument or something without pairs, or it makes
pairs of its arguments, and of what it is called with nothing but the arguments counts: the list
that they come in is no value of the program.
-/

namespace DualScope

open Action.Shares (pure fail)

variable {eval : Evaluation} {κ : Ledger}

/-! ## Texts -/

namespace Run

theorem shares_enter {vs : List Value} (h : ∀ v ∈ vs, v.Every (Value.Recorded κ)) :
    (enter vs).Shares κ fun κ' vs => ∀ v ∈ vs, v.Recorded κ' := by
  intro σ hσ
  obtain ⟨κ', hκ, hfree, hvs⟩ := Value.exists_recorded_stampAll hσ.free h
  exact ⟨κ', hκ, hσ.count hκ hfree, hvs⟩

variable (heval : eval.Shares) (i : FrameId)

include heval

theorem shares_expressions (source text : String) (echo : Bool) (errors : Nat) {es : List Value}
    (hes : ∀ e ∈ es, e.Recorded κ) :
    (expressions eval i source text echo errors es).Shares κ fun _ _ => True := by
  induction es generalizing errors κ with
  | nil => exact pure trivial
  | cons e es ih =>
      obtain ⟨he, hes⟩ := List.forall_mem_cons.mp hes
      refine (heval κ e i he.runnable).attempt.bind fun κ₁ result hκ₁ _ => ?_
      cases result with
      | ok v =>
          dsimp only
          split
          · exact (Action.Shares.emit _).bind fun κ₂ _ hκ₂ _ =>
              ih errors (Value.recorded_mono hes (hκ₁.trans hκ₂))
          · exact ih errors (Value.recorded_mono hes hκ₁)
      | error err =>
          exact (Action.Shares.emit _).bind fun κ₂ _ hκ₂ _ =>
            ih (errors + 1) (Value.recorded_mono hes (hκ₁.trans hκ₂))

theorem shares_source (source text : String) (echo : Bool) :
    (Run.source eval i source text echo).Shares κ fun _ _ => True := by
  unfold Run.source
  cases lexemes text with
  | error e => exact (Action.Shares.emit _).bind fun _ _ _ _ => pure trivial
  | ok ts =>
      refine (shares_enter (Reader.every_all ts)).bind fun κ₁ es _ hes => ?_
      refine (shares_expressions heval i source text echo 0 hes).bind fun κ₂ errors _ _ => ?_
      cases (Reader.all ts).2 with
      | none => exact pure trivial
      | some e => exact (Action.Shares.emit _).bind fun _ _ _ _ => pure trivial

theorem shares_lastValue {last : Value} {es : List Value} (hlast : last.Recorded κ)
    (hes : ∀ e ∈ es, e.Recorded κ) :
    (lastValue eval i last es).Shares κ Value.Recorded := by
  induction es generalizing last κ with
  | nil => exact pure hlast
  | cons e es ih =>
      obtain ⟨he, hes⟩ := List.forall_mem_cons.mp hes
      exact (heval κ e i he.runnable).bind fun κ₁ v hκ₁ hv =>
        ih hv (Value.recorded_mono hes hκ₁)

theorem shares_program (text : String) :
    (program eval i text).Shares κ fun κ' result => ∀ v, result = .ok v → v.Recorded κ' := by
  unfold program
  cases hread : readProgram text with
  | error e => exact pure nofun
  | ok es =>
      refine (shares_enter (Reader.every_readProgram hread)).bind fun κ₁ vs _ hvs => ?_
      have hlast : Value.Recorded κ₁ (.okay .none) := trivial
      refine (shares_lastValue heval i hlast hvs).attempt.bind fun κ₂ result _ hv => pure ?_
      cases result with
      | ok v => exact fun w hw => by cases hw; exact hv v rfl
      | error e => exact nofun

end Run

/-! ## Loading -/

namespace Load

theorem shares_request (name : String) : (request name).Shares κ fun _ _ => True :=
  fun _ hσ => ⟨κ, .refl κ, hσ.emit _, trivial⟩

theorem shares_find (name : String) : (find name).Shares κ fun _ _ => True := by
  refine (shares_request name).bind fun κ₁ answer _ _ => ?_
  cases answer with
  | ok text => exact pure trivial
  | error why =>
      refine (shares_request (withExtension name)).bind fun κ₂ answer _ _ => ?_
      cases answer <;> exact pure trivial

theorem shares_perform (heval : eval.Shares) (i : FrameId) (name : Value) (echo : Bool) :
    (perform eval i name echo).Shares κ fun _ _ => True := by
  unfold perform
  cases fileName? name with
  | none => exact pure trivial
  | some name =>
      refine (shares_find name).bind fun κ₁ found _ _ => ?_
      cases found with
      | error f => exact pure trivial
      | ok file =>
          refine (Action.Shares.look _).bind fun κ₂ root _ _ => ?_
          exact (Run.shares_source heval root file.1 file.2 echo).bind fun _ _ _ _ => pure trivial

end Load

/-! ## Primitives -/

namespace Primitive

theorem shares_ofFault (p : Primitive) (span : Span) (x : Except Fault α) :
    (p.ofFault span x).Shares κ fun _ _ => True := by
  cases x with
  | ok a => exact pure trivial
  | error f => exact fail _

theorem shares_written (text : String) :
    (Action.write text >>= fun _ => Pure.pure (Value.okay .none)).Shares κ Value.Recorded :=
  (Action.Shares.emit _).bind fun _ _ _ _ => pure trivial

theorem shares_loaded (heval : eval.Shares) (i : FrameId) (span : Span) (name : Value)
    (echo : Bool) :
    (Load.perform eval i name echo >>= fun r =>
      Primitive.load.ofFault span r >>= fun _ => Pure.pure (Value.okay .none)).Shares κ
        Value.Recorded := by
  refine (Load.shares_perform heval i name echo).bind fun κ₁ r _ _ => ?_
  exact (shares_ofFault .load span r).bind fun _ _ _ _ => pure trivial

theorem shares_call (heval : eval.Shares) (i : FrameId) (span : Span) (p : Primitive)
    {args : List Value} (hargs : ∀ v ∈ args, v.Recorded κ) :
    (p.call eval i span args).Shares κ Value.Recorded := by
  cases p with
  | arithmetic op | comparison op =>
      exact (shares_ofFault _ span _).bind fun _ _ _ _ => pure trivial
  | test t =>
      match args with
      | [v] => exact pure trivial
      | [] | _ :: _ :: _ => exact fail _
  | eq | equal =>
      match args with
      | [v, w] => exact pure trivial
      | [] | [_] | _ :: _ :: _ :: _ => exact fail _
  | cons =>
      match args, hargs with
      | [v, w], hargs =>
          exact .newPair (hargs v List.mem_cons_self)
            (hargs w (List.mem_cons_of_mem v List.mem_cons_self)) span
      | [], _ | [_], _ | _ :: _ :: _ :: _, _ => exact fail _
  | car | cdr =>
      -- The head of the arguments is looked at before their number.
      rcases args with _ | ⟨v, rest⟩
      · exact fail _
      · have hv := hargs v List.mem_cons_self
        cases rest with
        | nil =>
            cases v with
            | pair id car cdr pspan => exact pure (by first | exact hv.2.1 | exact hv.2.2)
            | _ => exact fail _
        | cons w rest => cases v <;> exact fail _
  | list =>
      cases args with
      | nil => exact pure trivial
      | cons v rest =>
          intro σ hσ
          obtain ⟨κ', hκ, hfree, hlist⟩ := Value.exists_recorded_ofListFrom hσ.free hargs
          exact ⟨κ', hκ, hσ.count hκ hfree, hlist⟩
  | length =>
      match args with
      | [v] =>
          unfold Primitive.call
          dsimp only
          cases v.length? with
          | some k => exact pure trivial
          | none => exact fail _
      | [] | _ :: _ :: _ => exact fail _
  | display | print =>
      match args with
      | [v] => exact shares_written _
      | [] | _ :: _ :: _ => exact fail _
  | newline =>
      cases args with
      | nil => exact shares_written _
      | cons v rest => exact fail _
  | eval =>
      match args, hargs with
      | [v], hargs => exact heval κ v i (hargs v List.mem_cons_self).runnable
      | [], _ | _ :: _ :: _, _ => exact fail _
  | apply => exact fail _
  | load =>
      match args with
      | [name] => exact shares_loaded heval i span name false
      | [name, quiet] => exact shares_loaded heval i span name (!quiet.isTrue)
      | [] | _ :: _ :: _ :: _ => exact fail _

end Primitive

/-! ## Steps -/

namespace Eval

variable (heval : eval.Shares) (i : FrameId)

include heval

theorem shares_operands {known es : List Value} (hknown : ∀ v ∈ known, v.Recorded κ)
    (hes : ∀ e ∈ es, e.Recorded κ) :
    (operands eval i known es).Shares κ fun κ' vs => ∀ v ∈ vs, v.Recorded κ' := by
  induction es generalizing known κ with
  | nil => exact pure fun v hv => hknown v (List.mem_reverse.mp hv)
  | cons e es ih =>
      obtain ⟨he, hes⟩ := List.forall_mem_cons.mp hes
      refine (heval κ e i he.runnable).bind fun κ₁ v hκ₁ hv => ?_
      exact ih (List.forall_mem_cons.mpr ⟨hv, Value.recorded_mono hknown hκ₁⟩)
        (Value.recorded_mono hes hκ₁)

theorem shares_apply {args callee : Value} (span : Span)
    (hargs : ∀ v ∈ args.elements, v.Recorded κ) (hcallee : callee.Recorded κ) :
    (apply eval i args callee span).Shares κ Next.Recorded := by
  induction args, callee, span using Eval.apply.induct with
  | case1 span pspan id inner id' list nspan lspan aspan hlist ih =>
      simp only [apply, if_pos hlist]
      have hinner := hargs inner (by simp)
      have hlist' := hargs list (by simp)
      refine (ih hlist'.elements hinner).bind fun κ₁ next _ hnext => ?_
      cases next with
      | done v => exact pure hnext
      | eval e j => exact (heval κ₁ e j hnext).bind fun _ _ _ hv => pure hv
  | case2 span pspan id inner id' list nspan lspan aspan hlist =>
      simp only [apply, if_neg hlist]
      exact fail _
  | case3 span pspan args hshape vs hvs =>
      rw [apply.eq_2 _ _ _ _ _ hshape, hvs]
      exact fail _
  | case4 span pspan args hshape hvs =>
      rw [apply.eq_2 _ _ _ _ _ hshape, hvs]
      exact fail _
  | case5 args span p pspan hp vs hvs =>
      rw [apply.eq_3 _ _ _ _ _ _ hp, hvs]
      rw [Value.elements_of_list? hvs] at hargs
      exact (Primitive.shares_call heval i span p hargs).bind fun _ _ _ hv => pure hv
  | case6 args span p pspan hp hvs =>
      rw [apply.eq_3 _ _ _ _ _ _ hp, hvs]
      exact fail _
  | case7 args span id formals body home lspan =>
      rw [apply.eq_4]
      exact (Action.Shares.callFrame home formals span hargs).bind fun _ _ hκ _ =>
        pure (hcallee.2.mono hκ)
  | case8 args span id formals body mspan =>
      rw [apply.eq_5]
      exact (Action.Shares.callFrame i formals span hargs).bind fun _ _ hκ _ =>
        pure (hcallee.2.mono hκ)
  | case9 args span callee h₁ h₂ h₃ h₄ =>
      rw [apply.eq_6 _ _ _ _ _ h₁ h₂ h₃ h₄]
      exact fail _

theorem shares_step {e : Value} (he : e.Runnable κ) : (step eval e i).Shares κ Next.Recorded := by
  cases e with
  | symbol name span => exact (Action.Shares.lookup i name span).bind fun _ _ _ hv => pure hv
  | pair id head rest span =>
      obtain ⟨hhead, hrest⟩ := he
      unfold step
      dsimp only
      split
      · exact fail _
      · split
        · exact Form.shares_perform heval i span hrest _
        · refine (heval κ head i hhead.runnable).bind fun κ₁ callee hκ₁ hcallee => ?_
          have helements := Value.recorded_mono hrest.elements hκ₁
          refine (shares_operands heval i (List.forall_mem_nil _) helements).bind
            fun κ₂ args hκ₂ hargs => ?_
          have hlist : ∀ v ∈ (Value.ofList args).elements, v.Recorded κ₂ := by
            rw [Value.elements_ofList]
            exact hargs
          exact shares_apply heval i span hlist (hcallee.mono hκ₂)
  | lambda id formals body home span => exact pure he
  | mu id formals body span => exact pure he
  | _ => exact pure trivial

end Eval

end DualScope
