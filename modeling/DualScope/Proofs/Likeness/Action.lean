import DualScope.Load
import DualScope.Proofs.Likeness.Reader

/-!
# Actions that are alike

Two actions are alike if, from states that are alike, they come to ends that are alike: both
with values that a given relation holds of, both with errors that are alike, or both cut
short. For two actions one after the other this follows from the parts, so that all there is
to show of single acts is shown here.

There are other ways to compare actions on values that are alike: more can be asked of the states
that they lead to, or less where they come apart. What the evaluator does with values that are
alike is shown once, for every *accord*, and an accord is all that the single acts and their
composition have to satisfy for that.
-/

namespace DualScope

variable {L : Likeness}

/-! ## Acts of an evaluation -/

namespace Action

/-- The number of the next text. -/
def takeText : Action Nat := fun σ =>
  .value σ.texts { σ with texts := σ.texts + 1 }

/-- The action with its error reported, and with no result then. -/
def reported (source text : String) (x : Action α) : Action (Option α) := fun σ =>
  match x σ with
  | .value a σ => .value (some a) σ
  | .error e σ => .value none (σ.emit (.reported source text (.eval e)))
  | .cutShort => .cutShort

/-- The list of the values, made pair by pair from its end. -/
def makeList : List Value → Action Value
  | [] => pure (.nil .none)
  | v :: vs => do
    let rest ← makeList vs
    let id ← freshIdentity
    return .pair id v rest (v.span.merge rest.span)

theorem makeList_apply (vs : List Value) (σ : State) :
    makeList vs σ = .value (.ofListFrom σ.made vs) { σ with made := σ.made + vs.length } := by
  induction vs with
  | nil => rfl
  | cons v vs ih =>
      rw [makeList, bind_apply, ih, Value.ofListFrom_cons]
      rfl

end Action

/-- Behind an expression that is evaluated or reported the others follow. -/
theorem Run.expressions_cons (eval : Evaluation) (i : FrameId) (source text : String)
    (echo : Bool) (errors : Nat) (e : Value) (es : List Value) :
    expressions eval i source text echo errors (e :: es) =
      (eval e i).reported source text >>= fun
        | some v => do
          if echo && !v.isOkay then
            Action.write (v.text ++ "\n")
          expressions eval i source text echo errors es
        | none => expressions eval i source text echo (errors + 1) es := by
  funext σ
  rw [expressions, Action.bind_apply, Action.bind_apply, Action.attempt_apply, Action.reported]
  cases eval e i σ <;> rfl

/-! ## Ends that are alike -/

inductive Ending.Like (L : Likeness) (P : α → β → Prop) : Ending α → Ending β → Prop
  | value {a : α} {b : β} {σ τ : State} : P a b → σ.Like L τ → Like L P (.value a σ) (.value b τ)
  | error {e e' : EvalError} {σ τ : State} : e.Like L e' → σ.Like L τ →
    Like L P (.error e σ) (.error e' τ)
  | cutShort : Like L P .cutShort .cutShort

theorem Ending.Like.cutShort_iff {P : α → β → Prop} {r : Ending α} {r' : Ending β}
    (h : r.Like L P r') : r = .cutShort ↔ r' = .cutShort := by
  cases h with
  | cutShort => exact ⟨fun _ => rfl, fun _ => rfl⟩
  | _ => exact ⟨(nomatch ·), (nomatch ·)⟩

/-- From states that are alike the actions come to ends that are alike. -/
def Action.Like (L : Likeness) (P : α → β → Prop) (x : Action α) (y : Action β) : Prop :=
  ∀ σ τ, σ.Like L τ → (x σ).Like L P (y τ)

namespace Action.Like

variable {P : α → β → Prop} {Q : γ → δ → Prop}

theorem pure {a : α} {b : β} (h : P a b) :
    Action.Like L P (Pure.pure a : Action α) (Pure.pure b : Action β) :=
  fun _ _ hστ => .value h hστ

theorem fail {e e' : EvalError} (h : e.Like L e') :
    Action.Like L P (Action.fail e) (Action.fail e') :=
  fun _ _ hστ => .error h hστ

theorem bind {x : Action α} {y : Action β} {f : α → Action γ} {g : β → Action δ}
    (hxy : x.Like L P y) (hfg : ∀ a b, P a b → (f a).Like L Q (g b)) :
    Action.Like L Q (x >>= f) (y >>= g) := by
  intro σ τ hστ
  have hends := hxy σ τ hστ
  rw [bind_apply, bind_apply]
  generalize x σ = r at hends ⊢
  generalize y τ = r' at hends ⊢
  cases hends with
  | value hab hστ => exact hfg _ _ hab _ _ hστ
  | error he hστ => exact .error he hστ
  | cutShort => exact .cutShort

theorem attempt {x : Action α} {y : Action β} (h : x.Like L P y) :
    Action.Like L (LikeExcept (EvalError.Like L) P) x.attempt y.attempt := by
  intro σ τ hστ
  have hends := h σ τ hστ
  rw [attempt_apply, attempt_apply]
  generalize x σ = r at hends ⊢
  generalize y τ = r' at hends ⊢
  cases hends with
  | value hab hστ => exact .value (.ok hab) hστ
  | error he hστ => exact .value (.error he) hστ
  | cutShort => exact .cutShort

theorem reported {x : Action α} {y : Action β} (source text : String) (h : x.Like L P y) :
    Action.Like L (Option.Rel P) (x.reported source text) (y.reported source text) := by
  intro σ τ hστ
  have hends := h σ τ hστ
  unfold Action.reported
  generalize x σ = r at hends ⊢
  generalize y τ = r' at hends ⊢
  cases hends with
  | value hab hστ => exact .value (.some hab) hστ
  | error he hστ => exact .value .none (hστ.emit (.reported source text (.eval he)))
  | cutShort => exact .cutShort

/-! ## Acts -/

theorem emit {e e' : Event} (h : e.Like L e') :
    Action.Like L Eq (Action.change (·.emit e)) (Action.change (·.emit e')) :=
  fun _ _ hστ => .value rfl (hστ.emit h)

/-- Of the files, both sides see the same, and what they see may be read. -/
theorem request (name : String) :
    Action.Like L (fun r r' => r = r' ∧ ∀ text, r = .ok text → L.Admits text)
      (Load.request name) (Load.request name) :=
  fun _ _ hστ => .value ⟨by rw [hστ.files], hστ.admits name⟩ (hστ.emit (.opened name))

theorem freshIdentity :
    Action.Like L L.identity Action.freshIdentity Action.freshIdentity :=
  fun _ _ hστ => .value (hστ.made 0) (hστ.count 1 0)

theorem takeText :
    Action.Like L (fun t t' => ∀ k, L.identity (.read t k) (.read t' k)) Action.takeText
      Action.takeText :=
  fun _ _ hστ => .value (hστ.texts 0) (hστ.count 0 1)

theorem newFrame {f f' : Frame} (h : f.Like L f') :
    Action.Like L Eq (Action.newFrame f) (Action.newFrame f') :=
  fun _ _ hστ => .value hστ.frames.size.symm (hστ.push h)

theorem bindIn (i : FrameId) (name : String) {v v' : Value} (h : v.Like L v') :
    Action.Like L Eq (Action.bindIn i name v) (Action.bindIn i name v') :=
  fun _ _ hστ => .value rfl (hστ.bind i name h)

theorem lookup (i : FrameId) {name : String} (hname : L.name name) {s s' : Span}
    (hs : L.span s s') :
    Action.Like L (Value.Like L) (Action.lookup i name s) (Action.lookup i name s') := by
  intro σ τ hστ
  unfold Action.lookup
  rcases cases_of_rel (hστ.frames.lookup hname i) with ⟨hv, hv'⟩ | ⟨v, v', hv, hv', hlike⟩
  · rw [hv, hv']
    exact .error (.unbound name hs) hστ
  · rw [hv, hv']
    exact .value hlike hστ

end Action.Like

/-! ## Accords -/

/-- A way to compare actions on values that are alike: with `Agree P`, the actions agree, and
`P` holds of their results. The acts that evaluation is made of agree with themselves, actions
one after the other agree if their parts do, and actions that agree still do so when their
errors are reported. -/
structure Accord (L : Likeness) where
  Agree {α β : Type} (P : α → β → Prop) (x : Action α) (y : Action β) : Prop
  pure {α β : Type} {P : α → β → Prop} {a : α} {b : β} :
    P a b → Agree P (Pure.pure a) (Pure.pure b)
  fail {α β : Type} (P : α → β → Prop) {e e' : EvalError} :
    e.Like L e' → Agree P (Action.fail e) (Action.fail e')
  bind {α β γ δ : Type} {P : α → β → Prop} {Q : γ → δ → Prop} {x : Action α} {y : Action β}
    {f : α → Action γ} {g : β → Action δ} :
    Agree P x y → (∀ a b, P a b → Agree Q (f a) (g b)) → Agree Q (x >>= f) (y >>= g)
  reported {α β : Type} {P : α → β → Prop} {x : Action α} {y : Action β} (source text : String) :
    Agree P x y → Agree (Option.Rel P) (x.reported source text) (y.reported source text)
  write (text : String) : Agree Eq (Action.write text) (Action.write text)
  fault (source text : String) {e e' : ReadError} : e.Like L e' →
    Agree Eq (Run.report source text (.read e)) (Run.report source text (.read e'))
  request (name : String) : Agree (fun r r' => r = r' ∧ ∀ text, r = .ok text → L.Admits text)
    (Load.request name) (Load.request name)
  freshIdentity : Agree L.identity Action.freshIdentity Action.freshIdentity
  takeText : Agree (fun t t' => ∀ k, L.identity (.read t k) (.read t' k)) Action.takeText
    Action.takeText
  newFrame (p : FrameId) {bs bs' : List (String × Value)} : LikeBindings L bs bs' →
    Agree Eq (Action.newFrame ⟨some p, bs⟩) (Action.newFrame ⟨some p, bs'⟩)
  bindIn (i : FrameId) {name : String} {v v' : Value} : L.name name → v.Like L v' →
    Agree Eq (Action.bindIn i name v) (Action.bindIn i name v')
  lookup (i : FrameId) {name : String} {s s' : Span} : L.name name → L.span s s' →
    Agree (Value.Like L) (Action.lookup i name s) (Action.lookup i name s')
  root (i : FrameId) : Agree Eq (Action.look (·.frames.root i)) (Action.look (·.frames.root i))

namespace Accord

/-- Actions that lead from states that are alike to ends that are alike. -/
def alike (L : Likeness) : Accord L where
  Agree := Action.Like L
  pure := .pure
  fail _ := .fail
  bind := .bind
  reported := .reported
  write text := .emit (.wrote text)
  fault source text _ _ he := .emit (.reported source text (.read he))
  request := .request
  freshIdentity := .freshIdentity
  takeText := .takeText
  newFrame p _ _ hbs := .newFrame (Frame.like_of_bindings (some p) hbs)
  bindIn i _ _ _ _ hv := .bindIn i _ hv
  lookup i _ _ _ hname hs := .lookup i hname hs
  root i _ _ hστ := .value (hστ.frames.root i).symm hστ

variable {C : Accord L}

/-- Expressions that are alike are evaluated in agreement, in every frame. -/
def Evaluations (C : Accord L) (eval eval' : Evaluation) : Prop :=
  ∀ e e' i, e.Like L e' → C.Agree (Value.Like L) (eval e i) (eval' e' i)

namespace Agree

variable {P : α → β → Prop} {Q : γ → δ → Prop}

theorem pure {a : α} {b : β} (h : P a b) : C.Agree P (Pure.pure a) (Pure.pure b) :=
  C.pure h

theorem fail {e e' : EvalError} (h : e.Like L e') :
    C.Agree P (Action.fail e) (Action.fail e') :=
  C.fail P h

theorem bind {x : Action α} {y : Action β} {f : α → Action γ} {g : β → Action δ}
    (h : C.Agree P x y) (hfg : ∀ a b, P a b → C.Agree Q (f a) (g b)) :
    C.Agree Q (x >>= f) (y >>= g) :=
  C.bind h hfg

theorem ofExcept {x : Except EvalError α} {y : Except EvalError β}
    (h : LikeExcept (EvalError.Like L) P x y) :
    C.Agree P (Action.ofExcept x) (Action.ofExcept y) := by
  cases h with
  | ok hab => exact .pure hab
  | error he => exact .fail he

theorem write {text text' : String} (h : text' = text) :
    C.Agree Eq (Action.write text) (Action.write text') :=
  h ▸ C.write text'

theorem makeList {vs vs' : List Value} (h : List.Forall₂ (Value.Like L) vs vs') :
    C.Agree (Value.Like L) (Action.makeList vs) (Action.makeList vs') := by
  induction h with
  | nil => exact .pure (.nil (L.span_refl _))
  | cons hv _ ih =>
      refine .bind ih fun rest rest' hrest => .bind C.freshIdentity fun id id' hid => ?_
      exact .pure (.pair hid hv hrest (L.span_merge hv.span hrest.span))

theorem define (i : FrameId) {target target' v v' : Value} (ht : target.Like L target')
    (hv : v.Like L v') : C.Agree Eq (Action.define i target v) (Action.define i target' v') := by
  rw [Action.define, Action.define, ht.symbol?]
  cases hname : target.symbol? with
  | some name => exact C.bindIn i (ht.name hname) hv
  | none => exact .fail (.badTarget ht)

end Agree

end Accord

/-! ## Bindings -/

theorem LikeBindings.insert {bs bs' : List (String × Value)} (h : LikeBindings L bs bs')
    {name : String} (hname : L.name name) {v v' : Value} (hv : v.Like L v') :
    LikeBindings L (Frame.insert name v bs) (Frame.insert name v' bs') := by
  induction h with
  | nil => exact .cons ⟨rfl, hname, hv⟩ .nil
  | @cons b b' bs bs' hb hbs ih =>
      obtain ⟨n, w⟩ := b
      obtain ⟨n', w'⟩ := b'
      obtain ⟨hn, hm, hw⟩ := hb
      dsimp only at hn hm hw
      subst hn
      rw [Frame.insert, Frame.insert]
      split
      · exact .cons ⟨rfl, hm, hv⟩ hbs
      · exact .cons ⟨rfl, hm, hw⟩ ih

theorem like_zip {names : List String} (hnames : ∀ name ∈ names, L.name name)
    {ws ws' : List Value} (hws : List.Forall₂ (Value.Like L) ws ws') :
    LikeBindings L (names.zip ws) (names.zip ws') := by
  induction hws generalizing names with
  | nil =>
      rw [List.zip_nil_right]
      exact .nil
  | cons hw _ ih =>
      cases names with
      | nil => exact .nil
      | cons name names =>
          obtain ⟨hname, hnames⟩ := List.forall_mem_cons.mp hnames
          exact .cons ⟨rfl, hname, hw⟩ (ih hnames)

theorem like_matchFormals {formals formals' : Value} (hf : formals.Like L formals')
    {args args' : Value} (hargs : args.Like L args') {made made' : List (String × Value)}
    (hmade : LikeBindings L made made') :
    LikeExcept (EvalError.Like L) (Option.Rel (LikeBindings L)) (matchFormals made formals args)
      (matchFormals made' formals' args') := by
  induction hf generalizing args args' made made' with
  | nil _ =>
      cases hargs with
      | nil _ => exact .ok (.some hmade)
      | _ => exact .ok .none
  | pair _ hcar _ _ _ ih =>
      cases hargs with
      | pair _ hv hargs _ =>
          cases hcar with
          | symbol hname _ => exact ih hargs (hmade.insert hname hv)
          | _ => exact .error (.badTarget (by constructor <;> assumption))
      | _ => cases hcar <;> exact .ok .none
  | _ => cases hargs <;> exact .ok .none

theorem like_callBindings {formals formals' args args' : Value} {s s' : Span}
    (hf : formals.Like L formals') (hargs : args.Like L args') (hs : L.span s s') :
    LikeExcept (EvalError.Like L) (LikeBindings L) (callBindings formals args s)
      (callBindings formals' args' s') := by
  have hmatch : LikeExcept (EvalError.Like L) _ (matchFormals [] formals args)
      (matchFormals [] formals' args') := like_matchFormals hf hargs .nil
  rw [callBindings, callBindings, hf.elements.length_eq, hargs.elements.length_eq]
  generalize matchFormals [] formals args = x at hmatch ⊢
  generalize matchFormals [] formals' args' = y at hmatch ⊢
  cases hmatch with
  | ok hbs =>
      cases hbs with
      | some hbs => exact .ok hbs
      | none => exact .error (.argumentCount _ _ hs)
  | error he => exact .error he

theorem Accord.Agree.callFrame {C : Accord L} (parent : FrameId)
    {formals formals' args args' : Value} {s s' : Span} (hf : formals.Like L formals')
    (hargs : args.Like L args') (hs : L.span s s') :
    C.Agree Eq (Action.callFrame parent formals args s)
      (Action.callFrame parent formals' args' s') :=
  .bind (.ofExcept (like_callBindings hf hargs hs)) fun _ _ hbs => C.newFrame parent hbs

end DualScope
