import DualScope.Proofs.Lockstep.Forms

/-!
# Calls in lockstep

Of the primitives only three reach back into the evaluator: `eval` evaluates in the
frame of the call, `load` in the global frame above it, and `apply` is a call itself.
All others are the same action whatever evaluates, and keep every discipline, since
what they return is made of their arguments.

`load` is where the terms of a pairing come in. An error inside of it is reported
and swallowed, so for the other run to agree the error has to be accepted with its
report, and no escape must be possible: the request for the file, which goes out
before anything is evaluated, sees to that.
-/

namespace DualScope

/-! ## What `load` does once it has asked for a file -/

namespace Load

def runAbove (eval : Evaluation) (i : FrameId) (source text : String) (echo : Bool) :
    Action (Except Fault Unit) := do
  let root ← Action.look (·.frames.root i)
  let _ ← Run.source eval root source text echo
  return .ok ()

/-- What is done with the answer to the first request of a load. -/
def afterRequest (eval : Evaluation) (i : FrameId) (name : String) (echo : Bool) :
    Except FileError String → Action (Except Fault Unit)
  | .ok text => runAbove eval i name text echo
  | .error why => do
    match ← request (withExtension name) with
    | .ok text => runAbove eval i (withExtension name) text echo
    | .error _ => return .error (.cannotLoad name why)

theorem perform_eq {name : Value} {s : String} (h : fileName? name = some s) (eval : Evaluation)
    (i : FrameId) (echo : Bool) (σ : State) :
    perform eval i name echo σ =
      afterRequest eval i s echo (σ.files s) (σ.emit (.opened s)) := by
  unfold perform
  rw [h]
  simp only [Action.bind_apply, find, request]
  cases σ.files s with
  | ok text => rfl
  | error why =>
      simp only [Action.bind_apply, afterRequest, request]
      cases (σ.emit (.opened s)).files (withExtension s) with
      | ok text => rfl
      | error _ => rfl

end Load

theorem Run.lastValue_eq_sequence (eval : Evaluation) (i : FrameId) (last : Value)
    (es : List Value) : Run.lastValue eval i last es = Form.sequence eval i last es := by
  induction es generalizing last with
  | nil => rfl
  | cons e es ih => simp only [Run.lastValue, Form.sequence, ih]

namespace Pairing

variable {D : Discipline} {P : Pairing D} {eval eval' : Evaluation} {i : FrameId} {σ τ : State}

/-- The first of two evaluations in lockstep, by itself. -/
theorem Evaluations.alone (heval : P.Evaluations eval eval') :
    (Pairing.all D).Evaluations eval eval := by
  intro e i σ τ h he
  obtain rfl : τ = σ := h.rel
  obtain ⟨τ', hrel⟩ := P.exists_rel h.sound
  exact .self (heval e i τ τ' ⟨h.sound, hrel, h.here⟩ he).allows

/-! ## Sources -/

theorem Lockstep.report (h : P.At i σ τ) (source text : String) (e : RunError) :
    P.Lockstep i σ τ (Run.report source text e) (Run.report source text e) fun _ _ => True :=
  .emit h _

theorem Lockstep.write (h : P.At i σ τ) (text : String) :
    P.Lockstep i σ τ (Action.write text) (Action.write text) fun _ _ => True :=
  .emit h _

theorem Lockstep.enter (h : P.At i σ τ) {vs : List Value}
    (hvs : ∀ v ∈ vs, D.Fine σ.frames.size v) :
    P.Lockstep i σ τ (Run.enter vs) (Run.enter vs) fun n vs => ∀ v ∈ vs, D.Fine n v := by
  refine of_value rfl ?_ (D.reaches_count i σ.made (σ.texts + 1) h.sound)
    (P.count σ.made (σ.texts + 1) h.rel) (Value.every_stampAll σ.texts hvs)
  rw [Run.enter, P.texts h.rel, ← P.made h.rel]

theorem Evaluations.expressions (heval : P.Evaluations eval eval')
    (hescape : ∀ e, ¬ P.escape e) {source text : String} {echo : Bool} {es : List Value} :
    ∀ {σ τ : State} {errors : Nat}, P.At i σ τ → (∀ e ∈ es, D.Fine σ.frames.size e) →
      P.Lockstep i σ τ (Run.expressions eval i source text echo errors es)
        (Run.expressions eval' i source text echo errors es) fun _ _ => True := by
  induction es with
  | nil => exact fun h _ => .pure h trivial
  | cons e es ih =>
      intro σ τ errors h hes
      obtain ⟨he, hes⟩ := List.forall_mem_cons.mp hes
      refine .attempt_report hescape h (heval e i σ τ h he) (fun _ => rfl) (fun _ => rfl)
        (fun v σ₁ τ₁ hle h₁ _ => ?_)
        (fun σ₁ τ₁ hle h₁ => ih h₁ (Discipline.fine_mono hes hle))
      have hes₁ := Discipline.fine_mono hes hle
      dsimp only
      by_cases hecho : (echo && !v.isOkay) = true
      · rw [if_pos hecho, if_pos hecho]
        exact .bind h₁ (.write h₁ _) fun _ σ₂ τ₂ hle₂ h₂ _ =>
          ih h₂ (Discipline.fine_mono hes₁ hle₂)
      · rw [if_neg hecho, if_neg hecho]
        exact ih h₁ hes₁

theorem Evaluations.source (heval : P.Evaluations eval eval') (hescape : ∀ e, ¬ P.escape e)
    (h : P.At i σ τ) (source text : String) (echo : Bool) :
    P.Lockstep i σ τ (Run.source eval i source text echo)
      (Run.source eval' i source text echo) fun _ _ => True := by
  unfold Run.source
  cases lexemes text with
  | error e => exact .bind h (.report h _ _ _) fun _ σ₁ τ₁ _ h₁ _ => .pure h₁ trivial
  | ok tokens =>
      refine .bind h (.enter h (Reader.every_all tokens)) ?_
      intro vs σ₁ τ₁ _ h₁ hvs
      refine .bind h₁ (heval.expressions hescape h₁ hvs) ?_
      intro errors σ₂ τ₂ _ h₂ _
      cases (Reader.all tokens).2 with
      | none => exact .pure h₂ trivial
      | some e => exact .bind h₂ (.report h₂ _ _ _) fun _ σ₃ τ₃ _ h₃ _ => .pure h₃ trivial

theorem Evaluations.program (heval : (Pairing.all D).Evaluations eval eval)
    (h : (Pairing.all D).At i σ σ) (text : String) :
    (Pairing.all D).Lockstep i σ σ (Run.program eval i text) (Run.program eval i text)
      fun n r => ∀ v, r = .ok v → D.Fine n v := by
  unfold Run.program
  cases hread : readProgram text with
  | error e => exact .pure h fun v hv => by cases hv
  | ok es =>
      refine .bind h (.enter h (Reader.every_readProgram hread)) ?_
      intro es σ₁ τ₁ _ h₁ hes
      obtain rfl : τ₁ = σ₁ := h₁.rel
      have hlast : D.Fine τ₁.frames.size (.okay .none) := trivial
      have ha := (heval.sequence h₁ hlast hes).allows
      rw [← Run.lastValue_eq_sequence] at ha
      refine .bind h₁ (.self ha.attempt) fun r σ₂ τ₂ _ h₂ hr => .pure h₂ ?_
      intro v hv
      cases r with
      | ok w => cases hv; exact hr v rfl
      | error e => cases hv

/-! ## Loading -/

theorem Evaluations.runAbove (heval : P.Evaluations eval eval') (hescape : ∀ e, ¬ P.escape e)
    (hs : D.Sound σ) (hrel : P.rel σ τ) (hi : D.frame σ.frames.size i) (source text : String)
    (echo : Bool) :
    P.Lockstep (σ.frames.root i) σ τ (Load.runAbove eval i source text echo)
      (Load.runAbove eval' i source text echo) fun _ _ => True := by
  have hr : P.At (σ.frames.root i) σ τ := ⟨hs, hrel, Discipline.frame_root hs.inv hi⟩
  have hrun : P.Lockstep (σ.frames.root i) σ τ
      (Run.source eval (σ.frames.root i) source text echo >>= fun _ => Pure.pure (.ok ()))
      (Run.source eval' (σ.frames.root i) source text echo >>= fun _ => Pure.pure (.ok ()))
      fun _ (_ : Except Fault Unit) => True :=
    .bind hr (heval.source hescape hr source text echo)
      fun _ σ₁ τ₁ _ h₁ _ => .pure h₁ trivial
  refine ⟨hrun.allows, ?_⟩
  have hy : Load.runAbove eval' i source text echo τ =
      (Run.source eval' (σ.frames.root i) source text echo >>= fun _ => Pure.pure (.ok ())) τ := by
    rw [← P.root hs hrel hi]
    rfl
  rw [hy]
  exact hrun.follows

theorem Lockstep.request {f g : Except FileError String → Action β} {post : Nat → β → Prop}
    (hs : D.Sound σ) (hrel : P.rel σ τ) (name : String)
    (hfg : P.Lockstep i (σ.emit (.opened name)) (τ.emit (.opened name)) (f (σ.files name))
      (g (σ.files name)) post) :
    P.Lockstep i σ τ (Load.request name >>= f) (Load.request name >>= g) post := by
  have hr := D.reaches_emit i (.opened name) hs
  have hx : (Load.request name >>= f) σ = f (σ.files name) (σ.emit (.opened name)) := rfl
  have hy : (Load.request name >>= g) τ = g (σ.files name) (τ.emit (.opened name)) := by
    rw [← P.files hrel]
    rfl
  refine .resume hx hfg.allows (fun σ₂ h₂ => hr.trans h₂) (D.moves_log hr.1) ?_
  intro _
  rw [hy]
  exact hfg.follows

theorem Evaluations.afterRequest (heval : P.Evaluations eval eval') (hescape : ∀ e, ¬ P.escape e)
    (hs : D.Sound σ) (hrel : P.rel σ τ) (hi : D.frame σ.frames.size i) (name : String)
    (echo : Bool) (answer : Except FileError String) :
    P.Lockstep (σ.frames.root i) σ τ (Load.afterRequest eval i name echo answer)
      (Load.afterRequest eval' i name echo answer) fun _ _ => True := by
  cases answer with
  | ok text => exact heval.runAbove hescape hs hrel hi name text echo
  | error why =>
      refine .request hs hrel (Load.withExtension name) ?_
      have hr := D.reaches_emit (σ.frames.root i) (.opened (Load.withExtension name)) hs
      have hrel' := P.emit (.opened (Load.withExtension name)) hrel
      cases σ.files (Load.withExtension name) with
      | ok text => exact heval.runAbove hescape hr.2 hrel' hi _ text echo
      | error _ => exact .pure ⟨hr.2, hrel', Discipline.frame_root hr.2.inv hi⟩ trivial

/-- The request that a load begins with rules out escapes. -/
theorem Evaluations.load (heval : P.Evaluations eval eval') (h : P.At i σ τ) (name : Value)
    (echo : Bool) :
    P.Lockstep i σ τ (Load.perform eval i name echo) (Load.perform eval' i name echo)
      fun _ _ => True := by
  cases hname : Load.fileName? name with
  | none =>
      unfold Load.perform
      rw [hname]
      exact .pure h trivial
  | some s =>
      have hr := D.reaches_emit i (.opened s) h.sound
      have hrel := P.emit (.opened s) h.rel
      have halone := heval.alone.afterRequest (fun _ h => h) hr.2 rfl h.here s echo (σ.files s)
      refine .resume (Load.perform_eq hname eval i echo σ) halone.allows ?_ (D.moves_log hr.1) ?_
      · intro σ₂ h₂
        exact ⟨D.moves_load h.sound.inv h.here h₂.1, h₂.2⟩
      · intro hacc
        have hescape : ∀ e, ¬ P.escape e := fun e => P.not_escape_of_event hacc.emitted
        rw [Load.perform_eq hname, P.files h.rel]
        exact (heval.afterRequest hescape hr.2 hrel h.here s echo (σ.files s)).follows

/-! ## Primitives -/

theorem Lockstep.ofFault (h : P.At i σ τ) (p : Primitive) (span : Span) (x : Except Fault α) :
    P.Lockstep i σ τ (p.ofFault span x) (p.ofFault span x) fun _ _ => True := by
  cases x with
  | ok a => exact .pure h trivial
  | error f => exact .fail h _ _

theorem Lockstep.list (h : P.At i σ τ) {args : List Value}
    (hargs : ∀ v ∈ args, D.Fine σ.frames.size v) :
    P.Lockstep i σ τ
      (fun σ => .value (.ofListFrom σ.made args) { σ with made := σ.made + args.length })
      (fun σ => .value (.ofListFrom σ.made args) { σ with made := σ.made + args.length })
      D.Fine := by
  refine of_value rfl ?_ (D.reaches_count i (σ.made + args.length) σ.texts h.sound)
    (P.count (σ.made + args.length) σ.texts h.rel) (Value.every_ofListFrom σ.made hargs)
  rw [P.made h.rel, ← P.texts h.rel]

theorem Evaluations.call (heval : P.Evaluations eval eval') (h : P.At i σ τ) (p : Primitive)
    (span : Span) {args : List Value} (hargs : ∀ v ∈ args, D.Fine σ.frames.size v) :
    P.Lockstep i σ τ (p.call eval i span args) (p.call eval' i span args) D.Fine := by
  have written : ∀ text : String, P.Lockstep i σ τ
      (Action.write text >>= fun _ => Pure.pure (Value.okay .none))
      (Action.write text >>= fun _ => Pure.pure (Value.okay .none)) D.Fine :=
    fun text => .bind h (.write h text) fun _ σ₁ τ₁ _ h₁ _ => .pure h₁ trivial
  have loaded : ∀ (name : Value) (echo : Bool), P.Lockstep i σ τ
      (Load.perform eval i name echo >>= fun r =>
        Primitive.load.ofFault span r >>= fun _ => Pure.pure (Value.okay .none))
      (Load.perform eval' i name echo >>= fun r =>
        Primitive.load.ofFault span r >>= fun _ => Pure.pure (Value.okay .none)) D.Fine :=
    fun name echo => .bind h (heval.load h name echo) fun r σ₁ τ₁ _ h₁ _ =>
      .bind h₁ (.ofFault h₁ _ _ _) fun _ σ₂ τ₂ _ h₂ _ => .pure h₂ trivial
  have fault : ∀ (x y : Action Value) (e : EvalError), x = Action.fail e → y = Action.fail e →
      P.Lockstep i σ τ x y D.Fine := by
    rintro _ _ e rfl rfl
    exact .fail h e _
  cases p with
  | arithmetic op | comparison op =>
      exact .bind h (.ofFault h _ _ _) fun _ σ₁ τ₁ _ h₁ _ => .pure h₁ trivial
  | test t =>
      match args with
      | [v] => exact .pure h trivial
      | [] | _ :: _ :: _ => exact fault _ _ _ rfl rfl
  | eq | equal =>
      match args with
      | [v, w] => exact .pure h trivial
      | [] | [_] | _ :: _ :: _ :: _ => exact fault _ _ _ rfl rfl
  | cons =>
      match args, hargs with
      | [v, w], hargs =>
          refine .bind h (.freshIdentity h) fun id σ₁ τ₁ hle h₁ _ => .pure h₁ ⟨?_, ?_⟩
          · exact (hargs v List.mem_cons_self).mono hle
          · exact (hargs w (List.mem_cons_of_mem v List.mem_cons_self)).mono hle
      | [], _ | [_], _ | _ :: _ :: _ :: _, _ => exact fault _ _ _ rfl rfl
  | car | cdr =>
      -- The head of the arguments is looked at before their number.
      rcases args with _ | ⟨v, rest⟩
      · exact fault _ _ _ rfl rfl
      · have hv := hargs v List.mem_cons_self
        cases rest with
        | nil =>
            cases v with
            | pair id car cdr pspan => exact .pure h (by first | exact hv.1 | exact hv.2)
            | _ => exact fault _ _ _ rfl rfl
        | cons w rest => cases v <;> exact fault _ _ _ rfl rfl
  | list =>
      cases args with
      | nil => exact .pure h trivial
      | cons v rest => exact .list h hargs
  | length =>
      match args with
      | [v] =>
          unfold Primitive.call
          dsimp only
          cases v.length? with
          | some n => exact .pure h trivial
          | none => exact fault _ _ _ rfl rfl
      | [] | _ :: _ :: _ => exact fault _ _ _ rfl rfl
  | display | print =>
      match args with
      | [v] => exact written _
      | [] | _ :: _ :: _ => exact fault _ _ _ rfl rfl
  | newline =>
      cases args with
      | nil => exact written _
      | cons v rest => exact fault _ _ _ rfl rfl
  | eval =>
      match args, hargs with
      | [v], hargs => exact heval v i σ τ h (hargs v List.mem_cons_self)
      | [], _ | _ :: _ :: _, _ => exact fault _ _ _ rfl rfl
  | apply => exact fault _ _ _ rfl rfl
  | load =>
      match args with
      | [name] => exact loaded name false
      | [name, quiet] => exact loaded name (!quiet.isTrue)
      | [] | _ :: _ :: _ :: _ => exact fault _ _ _ rfl rfl

end Pairing

end DualScope
