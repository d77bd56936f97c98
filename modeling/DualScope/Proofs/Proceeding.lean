import DualScope.Eval

/-!
# How a step proceeds

A step is put together from single acts and from evaluations that it asks for. It asks for
them in the frame that it is done in, in a frame that it has made, or in the global frame
at the end of its chain, and it binds names nowhere else. This is said here of the
evaluator as it is written, whatever evaluation it is given. What it does behind an
evaluation that it has asked for is put together in the same way, and there is less of it,
until the step is over. So where an induction needs no more than this of a step, it goes
over the way in which the step is put together, and not over the evaluator.

The statements about the parts of a step are made of what comes behind them: if that
proceeds in the frame, then it does so with the part in front.
-/

namespace DualScope

variable {eval : Evaluation} {i : FrameId}

/-- What is done proceeds in the frame: it acts on the state, looks at it, and evaluates
expressions there, each time with something that proceeds left to do. It goes over to a
frame that it makes and to the one at the end of the chain. -/
inductive Eval.Proceeds (eval : Evaluation) : FrameId → Action Next → Prop
  | done {i : FrameId} (v : Value) : Proceeds eval i (pure (.done v))
  | tail {i : FrameId} (e : Value) : Proceeds eval i (pure (.eval e i))
  | fail {i : FrameId} (err : EvalError) : Proceeds eval i (Action.fail err)
  /-- The error of an evaluation may be taken up instead of a value. -/
  | attempt {i : FrameId} (e : Value) {k : Except EvalError Value → Action Next} :
    (∀ r, Proceeds eval i (k r)) → Proceeds eval i ((eval e i).attempt >>= k)
  | look {i : FrameId} {α : Type} (f : State → α) {k : α → Action Next} :
    (∀ a, Proceeds eval i (k a)) → Proceeds eval i (Action.look f >>= k)
  | bind {i : FrameId} (name : String) (v : Value) {x : Action Next} :
    Proceeds eval i x → Proceeds eval i (Action.bindIn i name v >>= fun _ => x)
  | emit {i : FrameId} (e : Event) {x : Action Next} :
    Proceeds eval i x → Proceeds eval i (Action.change (·.emit e) >>= fun _ => x)
  | count {i : FrameId} (made texts : Nat → Nat) {x : Action Next} :
    Proceeds eval i x → Proceeds eval i
      (Action.change (fun σ => { σ with made := made σ.made, texts := texts σ.texts }) >>=
        fun _ => x)
  | frame {i : FrameId} (f : Frame) {k : FrameId → Action Next} :
    (∀ j, Proceeds eval j (k j)) → Proceeds eval i (Action.newFrame f >>= k)
  | root {i : FrameId} {k : FrameId → Action Next} :
    (∀ j, Proceeds eval j (k j)) → Proceeds eval i (Action.look (·.frames.root i) >>= k)

namespace Eval.Proceeds

section

variable {k : α → Action Next}

/-! ## Single acts -/

theorem ofExcept {x : Except EvalError α} (hk : ∀ a, Proceeds eval i (k a)) :
    Proceeds eval i (Action.ofExcept x >>= k) := by
  cases x with
  | ok a => exact hk a
  | error err => exact .fail err

theorem ofFault {p : Primitive} {span : Span} {x : Except Fault α}
    (hk : ∀ a, Proceeds eval i (k a)) : Proceeds eval i (p.ofFault span x >>= k) := by
  cases x with
  | ok a => exact hk a
  | error f => exact .fail _

end

theorem evaluate {e : Value} {k : Value → Action Next} (hk : ∀ v, Proceeds eval i (k v)) :
    Proceeds eval i (eval e i >>= k) := by
  have heq : eval e i >>= k = (eval e i).attempt >>= fun r => Action.ofExcept r >>= k := by
    funext σ
    rw [Action.bind_apply, Action.bind_apply, Action.attempt_apply]
    cases eval e i σ <;> rfl
  rw [heq]
  exact .attempt e fun r => ofExcept hk

theorem lookup {name : String} {span : Span} {k : Value → Action Next}
    (hk : ∀ v, Proceeds eval i (k v)) :
    Proceeds eval i (Action.lookup i name span >>= k) := by
  have heq : Action.lookup i name span >>= k =
      Action.look (·.frames.lookup name i) >>= fun found =>
        found.elim (Action.fail (.unbound name span)) k := by
    funext σ
    rw [Action.bind_apply, Action.bind_apply, Action.lookup, Action.look_apply]
    cases σ.frames.lookup name i <;> rfl
  rw [heq]
  refine .look _ fun found => ?_
  cases found with
  | some v => exact hk v
  | none => exact .fail _

theorem freshIdentity {k : Identity → Action Next} (hk : ∀ id, Proceeds eval i (k id)) :
    Proceeds eval i (Action.freshIdentity >>= k) := by
  have heq : Action.freshIdentity >>= k = Action.look (fun σ => Identity.made σ.made) >>=
      fun id => Action.change (fun σ => { σ with made := σ.made + 1 }) >>= fun _ => k id := rfl
  rw [heq]
  exact .look _ fun id => .count (· + 1) (fun n => n) (hk id)

theorem list {args : List Value} {k : Value → Action Next} (hk : ∀ v, Proceeds eval i (k v)) :
    Proceeds eval i ((fun σ => .value (.ofListFrom σ.made args)
      { σ with made := σ.made + args.length } : Action Value) >>= k) := by
  have heq : (fun σ => .value (.ofListFrom σ.made args)
      { σ with made := σ.made + args.length } : Action Value) >>= k =
      Action.look (fun σ => Value.ofListFrom σ.made args) >>= fun v =>
        Action.change (fun σ => { σ with made := σ.made + args.length }) >>= fun _ => k v := rfl
  rw [heq]
  exact .look _ fun v => .count (· + args.length) (fun n => n) (hk v)

theorem callFrame {parent : FrameId} {formals args : Value} {span : Span}
    {k : FrameId → Action Next} (hk : ∀ j, Proceeds eval j (k j)) :
    Proceeds eval i (Action.callFrame parent formals args span >>= k) := by
  rw [Action.callFrame, bind_assoc]
  exact ofExcept fun bindings => .frame _ hk

/-- What is left of something that proceeds is seen to behind it. -/
theorem conclude {x : Action Next} {f : Next → Action Next} (h : Proceeds eval i x)
    (hdone : ∀ j v, Proceeds eval j (f (.done v)))
    (htail : ∀ j e, Proceeds eval j (f (.eval e j))) : Proceeds eval i (x >>= f) := by
  induction h with
  | done v => exact hdone _ v
  | tail e => exact htail _ e
  | fail err => exact .fail err
  | attempt e _ ih => rw [bind_assoc]; exact .attempt e ih
  | look g _ ih => rw [bind_assoc]; exact .look g ih
  | bind name v _ ih => rw [bind_assoc]; exact .bind name v ih
  | emit e _ ih => rw [bind_assoc]; exact .emit e ih
  | count made texts _ ih => rw [bind_assoc]; exact .count made texts ih
  | frame f _ ih => rw [bind_assoc]; exact .frame f ih
  | root _ ih => rw [bind_assoc]; exact .root ih

/-! ## Forms -/

section

variable {k : Value → Action Next}

theorem evalOption {e : Option Value} (hk : ∀ v, Proceeds eval i (k v)) :
    Proceeds eval i (Form.evalOption eval i e >>= k) := by
  cases e with
  | none => exact .fail _
  | some e => exact evaluate hk

theorem conjunction (hk : ∀ v, Proceeds eval i (k v)) (last : Value) (es : List Value) :
    Proceeds eval i (Form.conjunction eval i last es >>= k) := by
  induction es generalizing last with
  | nil => exact hk last
  | cons e es ih =>
      rw [Form.conjunction, bind_assoc]
      refine evaluate fun v => ?_
      split
      · exact ih v
      · exact hk v

theorem sequence (hk : ∀ v, Proceeds eval i (k v)) (last : Value) (es : List Value) :
    Proceeds eval i (Form.sequence eval i last es >>= k) := by
  induction es generalizing last with
  | nil => exact hk last
  | cons e es ih =>
      rw [Form.sequence, bind_assoc]
      exact evaluate fun v => ih v

theorem disjunction (none : Value) (es : List Value) :
    Proceeds eval i (Form.disjunction eval i none es) := by
  induction es with
  | nil => exact .done none
  | cons e es ih =>
      cases es with
      | nil => exact .tail e
      | cons e' es =>
          refine evaluate fun v => ?_
          split
          · exact .done v
          · exact ih

theorem body (span : Span) (es : List Value) : Proceeds eval i (Form.body eval i span es) := by
  induction es with
  | nil => exact .fail _
  | cons e es ih =>
      cases es with
      | nil => exact .tail e
      | cons e' es => exact evaluate fun _ => ih

theorem test {clause expr body : Value} {isLast : Bool} (hk : ∀ v, Proceeds eval i (k v)) :
    Proceeds eval i (Form.test eval i clause expr body isLast >>= k) := by
  unfold Form.test
  split
  · split
    · exact .fail _
    · split
      · exact .fail _
      · exact hk _
  · exact evaluate hk

theorem clauses (cs : List Value) : Proceeds eval i (Form.clauses eval i cs) := by
  induction cs with
  | nil => exact .done _
  | cons c cs ih =>
      refine ofExcept fun _ => ofExcept ?_
      rintro ⟨expr, body⟩
      refine test fun v => ?_
      split
      · split
        · exact .done v
        · exact .tail _
      · exact ih

theorem letBindings {k : List (String × Value) → Action Next}
    (hk : ∀ made, Proceeds eval i (k made)) (made : List (String × Value)) (bs : List Value) :
    Proceeds eval i (Form.letBindings eval i made bs >>= k) := by
  induction bs generalizing made with
  | nil => exact hk made
  | cons b bs ih =>
      simp only [Form.letBindings, bind_assoc]
      refine ofExcept fun _ => ofExcept ?_
      rintro ⟨target, values⟩
      refine evalOption fun v => ?_
      cases target.symbol? with
      | none => exact .fail _
      | some name => exact ih _

theorem makeLambda {operands : Value} {span : Span} (hk : ∀ v, Proceeds eval i (k v)) :
    Proceeds eval i (Form.makeLambda i operands span >>= k) := by
  simp only [Form.makeLambda, bind_assoc]
  refine ofExcept ?_
  rintro ⟨formals, body⟩
  exact freshIdentity fun id => hk _

theorem makeMu {operands : Value} {span : Span} (hk : ∀ v, Proceeds eval i (k v)) :
    Proceeds eval i (Form.makeMu operands span >>= k) := by
  simp only [Form.makeMu, bind_assoc]
  refine ofExcept ?_
  rintro ⟨formals, body⟩
  exact freshIdentity fun id => hk _

theorem definition {operands : Value} {span : Span} (hk : ∀ v, Proceeds eval i (k v)) :
    Proceeds eval i (Form.definition eval i operands span >>= k) := by
  simp only [Form.definition, bind_assoc]
  refine ofExcept fun _ => ofExcept ?_
  rintro ⟨target, rest⟩
  cases target with
  | symbol name nspan =>
      simp only [bind_assoc]
      exact ofExcept fun _ => evalOption fun v => .bind name v (hk _)
  | pair id name formals pspan =>
      simp only [bind_assoc]
      refine makeLambda fun procedure => ?_
      unfold Action.define
      split
      · exact .bind _ procedure (hk _)
      · exact .fail _
  | _ => exact .fail _

theorem perform (operands : Value) (span : Span) (form : Form) :
    Proceeds eval i (form.perform eval i operands span) := by
  cases form with
  | and => exact conjunction .done _ _
  | begin => exact ofExcept fun _ => sequence .done _ _
  | cond => exact clauses _
  | define => exact definition .done
  | ifElse =>
      refine ofExcept fun _ => evalOption fun v => ?_
      split
      · exact .tail _
      · exact .done _
  | lambda => exact makeLambda .done
  | letIn =>
      refine ofExcept fun _ => ofExcept ?_
      rintro ⟨bindings, exprs⟩
      by_cases hproper : (!bindings.isProper) = true
      · simp only [hproper, if_true]
        exact .fail _
      · simp only [hproper]
        exact letBindings (fun made => .frame _ fun j => body _ _) _ _
  | mu => exact makeMu .done
  | or => exact disjunction _ _
  | quote =>
      refine ofExcept fun _ => ofExcept ?_
      rintro ⟨v, rest⟩
      exact .done v

end

/-! ## Files -/

theorem enter {vs : List Value} {k : List Value → Action Next}
    (hk : ∀ vs, Proceeds eval i (k vs)) : Proceeds eval i (Run.enter vs >>= k) := by
  have heq : Run.enter vs >>= k = Action.look (fun σ => Value.stampAll σ.texts vs) >>=
      fun vs => Action.change (fun σ => { σ with texts := σ.texts + 1 }) >>= fun _ => k vs := rfl
  rw [heq]
  exact .look _ fun vs => .count (fun n => n) (· + 1) (hk vs)

theorem request {name : String} {k : Except FileError String → Action Next}
    (hk : ∀ r, Proceeds eval i (k r)) : Proceeds eval i (Load.request name >>= k) := by
  have heq : Load.request name >>= k = Action.look (·.files name) >>=
      fun r => Action.change (·.emit (.opened name)) >>= fun _ => k r := rfl
  rw [heq]
  exact .look _ fun r => .emit (.opened name) (hk r)

section

variable {k : Nat → Action Next}

theorem expressions {source text : String} {echo : Bool} (hk : ∀ n, Proceeds eval i (k n))
    (errors : Nat) (es : List Value) :
    Proceeds eval i (Run.expressions eval i source text echo errors es >>= k) := by
  induction es generalizing errors with
  | nil => exact hk errors
  | cons e es ih =>
      simp only [Run.expressions, bind_assoc]
      refine .attempt e fun r => ?_
      cases r with
      | error err => exact .emit _ (ih (errors + 1))
      | ok v =>
          dsimp only
          split
          · rw [bind_assoc]
            exact .emit _ (ih errors)
          · exact ih errors

theorem source {source text : String} {echo : Bool} (hk : ∀ n, Proceeds eval i (k n)) :
    Proceeds eval i (Run.source eval i source text echo >>= k) := by
  unfold Run.source
  cases lexemes text with
  | error e => exact .emit _ (hk _)
  | ok tokens =>
      simp only [bind_assoc]
      refine enter fun vs => expressions (fun n => ?_) _ _
      cases (Reader.all tokens).2 with
      | none => exact hk _
      | some e => exact .emit _ (hk _)

end

theorem find {name : String} {k : Except Fault (String × String) → Action Next}
    (hk : ∀ r, Proceeds eval i (k r)) : Proceeds eval i (Load.find name >>= k) := by
  simp only [Load.find, bind_assoc]
  refine request fun r => ?_
  cases r with
  | ok text => exact hk _
  | error why =>
      simp only [bind_assoc]
      refine request fun r => ?_
      cases r <;> exact hk _

/-- What comes behind a file is done where the file ran. -/
theorem load {name : Value} {echo : Bool} {k : Except Fault Unit → Action Next}
    (hk : ∀ j r, Proceeds eval j (k r)) :
    Proceeds eval i (Load.perform eval i name echo >>= k) := by
  unfold Load.perform
  cases Load.fileName? name with
  | none => exact hk i _
  | some name =>
      simp only [bind_assoc]
      refine find fun r => ?_
      cases r with
      | error f => exact hk i _
      | ok file =>
          simp only [bind_assoc]
          exact .root fun j => source fun _ => hk j _

/-! ## Calls -/

theorem call (p : Primitive) (span : Span) (args : List Value) :
    Proceeds eval i (p.call eval i span args >>= fun v => pure (.done v)) := by
  have loaded : ∀ (name : Value) (echo : Bool), Proceeds eval i
      ((Load.perform eval i name echo >>= fun r => Primitive.load.ofFault span r >>= fun _ =>
        pure (Value.okay .none)) >>= fun v => pure (.done v)) := by
    intro name echo
    simp only [bind_assoc]
    exact load fun j r => ofFault fun _ => .done _
  cases p with
  | arithmetic op =>
      change Proceeds eval i ((Primitive.ofFault (.arithmetic op) span (op.compute args) >>=
        fun x => pure (.number x span)) >>= fun v => pure (.done v))
      rw [bind_assoc]
      exact ofFault fun x => .done _
  | comparison op =>
      change Proceeds eval i ((Primitive.ofFault (.comparison op) span (op.compute args) >>=
        fun b => pure (.boolean b span)) >>= fun v => pure (.done v))
      rw [bind_assoc]
      exact ofFault fun b => .done _
  | test t =>
      match args with
      | [v] => exact .done _
      | [] | _ :: _ :: _ => exact .fail _
  | eq | equal =>
      match args with
      | [v, w] => exact .done _
      | [] | [_] | _ :: _ :: _ :: _ => exact .fail _
  | cons =>
      match args with
      | [v, w] =>
          change Proceeds eval i
            (Action.freshIdentity >>= fun id => pure (.done (.pair id v w span)))
          exact freshIdentity fun id => .done _
      | [] | [_] | _ :: _ :: _ :: _ => exact .fail _
  | car | cdr =>
      rcases args with _ | ⟨v, _ | ⟨w, rest⟩⟩
      · exact .fail _
      · cases v with
        | pair id car cdr pspan => exact .done _
        | _ => exact .fail _
      · cases v <;> exact .fail _
  | list =>
      cases args with
      | nil => exact .done _
      | cons v rest => exact list .done
  | length =>
      match args with
      | [v] =>
          unfold Primitive.call
          dsimp only
          cases v.length? with
          | some n => exact .done _
          | none => exact .fail _
      | [] | _ :: _ :: _ => exact .fail _
  | display | print =>
      match args with
      | [v] => exact .emit _ (.done _)
      | [] | _ :: _ :: _ => exact .fail _
  | newline =>
      cases args with
      | nil => exact .emit _ (.done _)
      | cons v rest => exact .fail _
  | eval =>
      match args with
      | [v] => exact evaluate .done
      | [] | _ :: _ :: _ => exact .fail _
  | apply => exact .fail _
  | load =>
      match args with
      | [name] => exact loaded name false
      | [name, quiet] => exact loaded name (!quiet.isTrue)
      | [] | _ :: _ :: _ :: _ => exact .fail _

theorem operands {k : List Value → Action Next} (hk : ∀ vs, Proceeds eval i (k vs))
    (known es : List Value) : Proceeds eval i (Eval.operands eval i known es >>= k) := by
  induction es generalizing known with
  | nil => exact hk _
  | cons e es ih =>
      rw [Eval.operands, bind_assoc]
      exact evaluate fun v => ih _

theorem apply (args callee : Value) (span : Span) :
    Proceeds eval i (Eval.apply eval i args callee span) := by
  induction args, callee, span using Eval.apply.induct with
  | case1 span pspan id inner id' list nspan lspan aspan hlist ih =>
      rw [Eval.apply, if_pos hlist]
      exact conclude ih (fun j v => .done v) fun j e => evaluate .done
  | case2 span pspan id inner id' list nspan lspan aspan hlist =>
      rw [Eval.apply, if_neg hlist]
      exact .fail _
  | case3 span pspan args hargs vs hvs =>
      rw [Eval.apply.eq_2 _ _ _ _ _ hargs, hvs]
      exact .fail _
  | case4 span pspan args hargs hvs =>
      rw [Eval.apply.eq_2 _ _ _ _ _ hargs, hvs]
      exact .fail _
  | case5 args span p pspan hp vs hvs =>
      rw [Eval.apply.eq_3 _ _ _ _ _ _ hp, hvs]
      exact call p span vs
  | case6 args span p pspan hp hvs =>
      rw [Eval.apply.eq_3 _ _ _ _ _ _ hp, hvs]
      exact .fail _
  | case7 args span id formals body home lspan =>
      rw [Eval.apply.eq_4]
      exact callFrame fun j => .tail body
  | case8 args span id formals body mspan =>
      rw [Eval.apply.eq_5]
      exact callFrame fun j => .tail body
  | case9 args span callee h₁ h₂ h₃ h₄ =>
      rw [Eval.apply.eq_6 _ _ _ _ _ h₁ h₂ h₃ h₄]
      exact .fail _

end Eval.Proceeds

/-- Every step proceeds in its frame. -/
theorem Eval.step_proceeds (eval : Evaluation) (e : Value) (i : FrameId) :
    Proceeds eval i (step eval e i) := by
  cases e with
  | symbol name span => exact .lookup fun v => .done v
  | pair id head rest span =>
      unfold step
      by_cases hproper : (!rest.isProper) = true
      · simp only [hproper, if_true]
        exact .fail _
      · simp only [hproper]
        cases head.symbol?.bind Form.ofName? with
        | some form => exact .perform _ _ form
        | none => exact .evaluate fun callee => .operands (fun args => .apply _ _ _) _ _
  | _ => exact .done _

end DualScope
