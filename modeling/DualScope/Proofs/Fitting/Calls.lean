import DualScope.Proofs.Fitting.Forms
import DualScope.Proofs.Lockstep.Evaluator

/-!
# Texts and calls keep spans in bounds

A text that is run has been read, and its expressions fit into it. So does a fault in it; a
fault of an evaluation need not, if it is in a part of the program that came from elsewhere, but
it fits into the longest text read. That a file has been read is in the log before its text is
run.

A primitive gives back a part of an argument, or something new with the span of the call, or it
puts its arguments together.
-/

namespace DualScope

open Action.Fits (pure fail)

variable {texts : List String} {eval : Evaluation} {n : Nat}

/-! ## Texts -/

namespace Run

theorem fits_enter {vs : List Value} (h : ∀ v ∈ vs, v.Fits n) :
    (enter vs).Fits texts n fun m vs => ∀ v ∈ vs, v.Fits m :=
  fun σ hσ hn =>
    ⟨⟨rfl, List.suffix_refl _⟩, hσ.count _ _, n, Nat.le_refl n, hn,
      Value.fits_stampAll σ.texts h⟩

theorem fits_report (source : String) {text : String} {e : RunError} (he : e.Fits n)
    (hrange : (Report.of text e).range.Fits text.utf8ByteSize) :
    (report source text e).Fits texts n fun _ _ => True :=
  .emit fun _ _ hn => ⟨he.mono hn, hrange⟩

theorem fits_report_eval (source text : String) {e : EvalError} (h : e.Fits n) :
    (report source text (.eval e)).Fits texts n fun _ _ => True :=
  fits_report source h (Report.fits_eval h text)

theorem fits_report_read (source : String) {text : String} {e : ReadError}
    (h : readProgram text = .error e) (hn : text.utf8ByteSize ≤ n) :
    (report source text (.read e)).Fits texts n fun _ _ => True := by
  have he := ReadError.fits h
  exact fits_report source (fun s hs => (he s hs).mono hn) (Report.fits_read he)

variable (heval : eval.Fits texts) (i : FrameId)

include heval

theorem fits_expressions (source text : String) (echo : Bool) (errors : Nat) {es : List Value}
    (hes : ∀ e ∈ es, e.Fits n) :
    (expressions eval i source text echo errors es).Fits texts n fun _ _ => True := by
  induction es generalizing errors n with
  | nil => exact pure trivial
  | cons e es ih =>
      obtain ⟨he, hes⟩ := List.forall_mem_cons.mp hes
      refine (heval n e i he).attempt.bind fun m result hm hresult => ?_
      cases result with
      | ok v =>
          dsimp only
          split
          · exact (Action.Fits.write _).bind fun k _ hk _ =>
              ih errors (Value.fits_mono hes (Nat.le_trans hm hk))
          · exact ih errors (Value.fits_mono hes hm)
      | error err =>
          exact (fits_report_eval source text hresult).bind fun k _ hk _ =>
            ih (errors + 1) (Value.fits_mono hes (Nat.le_trans hm hk))

/-- A text is run if it is among those that have been read. -/
theorem fits_source (source : String) {text : String} (echo : Bool)
    (hn : text.utf8ByteSize ≤ n) :
    (Run.source eval i source text echo).Fits texts n fun _ _ => True := by
  unfold Run.source
  cases htokens : lexemes text with
  | error e =>
      have hread := readProgram_eq_error_iff.mpr (.inl htokens)
      exact (fits_report_read source hread hn).bind fun _ _ _ _ => pure trivial
  | ok ts =>
      have hvs := Value.fits_mono (Reader.fits_all (lexemes_eq_ok_iff.mp htokens)) hn
      refine (fits_enter hvs).bind fun m es hm hes => ?_
      refine (fits_expressions heval i source text echo 0 hes).bind fun k errors hk _ => ?_
      cases hfault : (Reader.all ts).2 with
      | none => exact pure trivial
      | some e =>
          have hread := readProgram_eq_error_iff.mpr (.inr ⟨ts, htokens, hfault⟩)
          have hle := Nat.le_trans hn (Nat.le_trans hm hk)
          exact (fits_report_read source hread hle).bind fun _ _ _ _ => pure trivial

theorem fits_lastValue {last : Value} {es : List Value} (hlast : last.Fits n)
    (hes : ∀ e ∈ es, e.Fits n) : (lastValue eval i last es).Fits texts n Value.Fits := by
  induction es generalizing last n with
  | nil => exact pure hlast
  | cons e es ih =>
      obtain ⟨he, hes⟩ := List.forall_mem_cons.mp hes
      exact (heval n e i he).bind fun m v hm hv => ih hv (Value.fits_mono hes hm)

/-- The value of a text fits, or the error does, and so does its report against the text. -/
def FitResult (text : String) (n : Nat) : Except RunError Value → Prop
  | .ok v => v.Fits n
  | .error e => e.Fits n ∧ (Report.of text e).range.Fits text.utf8ByteSize

theorem fits_program {text : String} (hn : text.utf8ByteSize ≤ n) :
    (program eval i text).Fits texts n (FitResult text) := by
  unfold program
  cases hread : readProgram text with
  | error e =>
      have he := ReadError.fits hread
      exact pure ⟨fun s hs => (he s hs).mono hn, Report.fits_read he⟩
  | ok es =>
      refine (fits_enter (Value.fits_mono (fits_readProgram hread) hn)).bind fun m vs _ hvs => ?_
      have hlast : Value.Fits m (.okay .none) := Span.fits_none m
      refine (fits_lastValue heval i hlast hvs).attempt.bind fun k result _ hr => ?_
      cases result with
      | ok v => exact pure hr
      | error e => exact pure ⟨hr, Report.fits_eval hr text⟩

end Run

/-! ## Loading -/

namespace Load

/-- A text that is read has been read from then on. -/
theorem fits_request (name : String) :
    (request name).Fits texts n fun m r => ∀ text, r = .ok text → text.utf8ByteSize ≤ m := by
  intro σ hσ hn
  have honward := σ.onward_emit (.opened name)
  refine ⟨honward, hσ.emit trivial, (σ.emit (.opened name)).reach texts,
    Nat.le_trans hn (honward.reach_le texts), Nat.le_refl _, fun text htext => ?_⟩
  exact le_longestRead_of_file htext texts σ.log

theorem fits_find (name : String) :
    (find name).Fits texts n fun m r =>
      ∀ source text, r = .ok (source, text) → text.utf8ByteSize ≤ m := by
  refine (fits_request name).bind fun m answer _ hanswer => ?_
  cases answer with
  | ok text =>
      refine pure ?_
      rintro _ _ ⟨⟩
      exact hanswer text rfl
  | error why =>
      refine (fits_request (withExtension name)).bind fun k answer _ hanswer => ?_
      cases answer with
      | ok text =>
          refine pure ?_
          rintro _ _ ⟨⟩
          exact hanswer text rfl
      | error _ => exact pure fun _ _ h => by cases h

theorem fits_perform (heval : eval.Fits texts) (i : FrameId) (name : Value) (echo : Bool) :
    (perform eval i name echo).Fits texts n fun _ _ => True := by
  unfold perform
  cases fileName? name with
  | none => exact pure trivial
  | some name =>
      refine (fits_find name).bind fun m found _ hfound => ?_
      cases found with
      | error f => exact pure trivial
      | ok file =>
          obtain ⟨source, text⟩ := file
          refine (Action.Fits.look _).bind fun k root hk _ => ?_
          have htext := Nat.le_trans (hfound source text rfl) hk
          exact (Run.fits_source heval root source echo htext).bind fun _ _ _ _ => pure trivial

end Load

/-! ## Primitives -/

namespace Primitive

variable {span : Span}

theorem fits_ofFault (p : Primitive) (hspan : span.Fits n) (x : Except Fault α) :
    (p.ofFault span x).Fits texts n fun _ _ => True := by
  cases x with
  | ok a => exact pure trivial
  | error f => exact fail hspan

theorem fits_written (text : String) :
    (Action.write text >>= fun _ => Pure.pure (Value.okay .none)).Fits texts n Value.Fits :=
  (Action.Fits.write text).bind fun _ _ _ _ => pure (Span.fits_none _)

theorem fits_loaded (heval : eval.Fits texts) (i : FrameId) (hspan : span.Fits n) (name : Value)
    (echo : Bool) :
    (Load.perform eval i name echo >>= fun r =>
      Primitive.load.ofFault span r >>= fun _ => Pure.pure (Value.okay .none)).Fits texts n
        Value.Fits := by
  refine (Load.fits_perform heval i name echo).bind fun m r hm _ => ?_
  exact (fits_ofFault .load (hspan.mono hm) r).bind fun _ _ _ _ => pure (Span.fits_none _)

theorem fits_call (heval : eval.Fits texts) (i : FrameId) (p : Primitive) {args : List Value}
    (hspan : span.Fits n) (hargs : ∀ v ∈ args, v.Fits n) :
    (p.call eval i span args).Fits texts n Value.Fits := by
  cases p with
  | arithmetic op | comparison op =>
      exact (fits_ofFault _ hspan _).bind fun _ _ hm _ => pure (hspan.mono hm)
  | test t =>
      match args with
      | [v] => exact pure hspan
      | [] | _ :: _ :: _ => exact fail hspan
  | eq | equal =>
      match args with
      | [v, w] => exact pure hspan
      | [] | [_] | _ :: _ :: _ :: _ => exact fail hspan
  | cons =>
      match args, hargs with
      | [v, w], hargs =>
          refine Action.Fits.freshIdentity.bind fun m id hm _ => pure ⟨hspan.mono hm, ?_, ?_⟩
          · exact (hargs v List.mem_cons_self).mono hm
          · exact (hargs w (List.mem_cons_of_mem v List.mem_cons_self)).mono hm
      | [], _ | [_], _ | _ :: _ :: _ :: _, _ => exact fail hspan
  | car | cdr =>
      -- The head of the arguments is looked at before their number.
      rcases args with _ | ⟨v, rest⟩
      · exact fail hspan
      · have hv := hargs v List.mem_cons_self
        cases rest with
        | nil =>
            cases v with
            | pair id car cdr pspan => exact pure (by first | exact hv.2.1 | exact hv.2.2)
            | _ => exact fail hspan
        | cons w rest => cases v <;> exact fail hspan
  | list =>
      cases args with
      | nil => exact pure hspan
      | cons v rest =>
          intro σ hσ hn
          exact ⟨⟨rfl, List.suffix_refl _⟩, hσ.count _ _, n, Nat.le_refl n, hn,
            Value.fits_ofListFrom σ.made hargs⟩
  | length =>
      match args with
      | [v] =>
          unfold Primitive.call
          dsimp only
          cases v.length? with
          | some k => exact pure hspan
          | none => exact fail hspan
      | [] | _ :: _ :: _ => exact fail hspan
  | display | print =>
      match args with
      | [v] => exact fits_written _
      | [] | _ :: _ :: _ => exact fail hspan
  | newline =>
      cases args with
      | nil => exact fits_written _
      | cons v rest => exact fail hspan
  | eval =>
      match args, hargs with
      | [v], hargs => exact heval n v i (hargs v List.mem_cons_self)
      | [], _ | _ :: _ :: _, _ => exact fail hspan
  | apply => exact fail hspan
  | load =>
      match args with
      | [name] => exact fits_loaded heval i hspan name false
      | [name, quiet] => exact fits_loaded heval i hspan name (!quiet.isTrue)
      | [] | _ :: _ :: _ :: _ => exact fail hspan

end Primitive

/-! ## Steps -/

namespace Eval

variable (heval : eval.Fits texts) (i : FrameId)

include heval

theorem fits_operands {known es : List Value} (hknown : ∀ v ∈ known, v.Fits n)
    (hes : ∀ e ∈ es, e.Fits n) :
    (operands eval i known es).Fits texts n fun m vs => ∀ v ∈ vs, v.Fits m := by
  induction es generalizing known n with
  | nil => exact pure fun v hv => hknown v (List.mem_reverse.mp hv)
  | cons e es ih =>
      obtain ⟨he, hes⟩ := List.forall_mem_cons.mp hes
      refine (heval n e i he).bind fun m v hm hv => ?_
      exact ih (List.forall_mem_cons.mpr ⟨hv, Value.fits_mono hknown hm⟩) (Value.fits_mono hes hm)

theorem fits_apply {args callee : Value} {span : Span} (hargs : args.Fits n)
    (hcallee : callee.Fits n) (hspan : span.Fits n) :
    (apply eval i args callee span).Fits texts n Next.Fits := by
  induction args, callee, span using Eval.apply.induct with
  | case1 span pspan id inner id' list nspan lspan aspan hlist ih =>
      simp only [apply, if_pos hlist]
      obtain ⟨-, hinner, -, hlist', -⟩ := hargs
      refine (ih hlist' hinner hinner.span).bind fun m next _ hnext => ?_
      cases next with
      | done v => exact pure hnext
      | eval e j => exact (heval m e j hnext).bind fun _ _ _ hv => pure hv
  | case2 span pspan id inner id' list nspan lspan aspan hlist =>
      simp only [apply, if_neg hlist]
      exact fail hspan
  | case3 span pspan args hshape vs hvs =>
      rw [apply.eq_2 _ _ _ _ _ hshape, hvs]
      exact fail hspan
  | case4 span pspan args hshape hvs =>
      rw [apply.eq_2 _ _ _ _ _ hshape, hvs]
      exact fail hargs
  | case5 args span p pspan hp vs hvs =>
      rw [apply.eq_3 _ _ _ _ _ _ hp, hvs]
      exact (Primitive.fits_call heval i p hspan (hargs.list? hvs)).bind fun _ _ _ hv => pure hv
  | case6 args span p pspan hp hvs =>
      rw [apply.eq_3 _ _ _ _ _ _ hp, hvs]
      exact fail hargs
  | case7 args span id formals body home lspan =>
      rw [apply.eq_4]
      obtain ⟨-, hformals, hbody⟩ := hcallee
      exact (Action.Fits.callFrame home hformals hargs hspan).bind fun _ _ hm _ =>
        pure (hbody.mono hm)
  | case8 args span id formals body mspan =>
      rw [apply.eq_5]
      obtain ⟨-, hformals, hbody⟩ := hcallee
      exact (Action.Fits.callFrame i hformals hargs hspan).bind fun _ _ hm _ =>
        pure (hbody.mono hm)
  | case9 args span callee h₁ h₂ h₃ h₄ =>
      rw [apply.eq_6 _ _ _ _ _ h₁ h₂ h₃ h₄]
      exact fail ⟨hcallee, hspan⟩

theorem fits_step {e : Value} (he : e.Fits n) : (step eval e i).Fits texts n Next.Fits := by
  cases e with
  | symbol name span => exact (Action.Fits.lookup i name he).bind fun _ _ _ hv => pure hv
  | pair id head rest span =>
      obtain ⟨hspan, hhead, hrest⟩ := he
      unfold step
      dsimp only
      split
      · exact fail ⟨hspan, hhead, hrest⟩
      · split
        · exact Form.fits_perform heval i hrest hspan _
        · refine (heval n head i hhead).bind fun m callee hm hcallee => ?_
          have helements := Value.fits_mono hrest.elements hm
          refine (fits_operands heval i (fun _ h => by cases h) helements).bind
            fun k args hk hargs => ?_
          exact fits_apply heval i (Value.fits_ofList hargs) (hcallee.mono hk)
            (hspan.mono (Nat.le_trans hm hk))
  | _ => exact pure he

end Eval

end DualScope
