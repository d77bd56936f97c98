import DualScope.Proofs.Sharing
import DualScope.Run

/-!
# Actions that keep a ledger

Where a ledger goes with a state, all values bound there are recorded in it, and nothing is of the
identities that are next. An action *shares* what is recorded: it leads to a state that a larger
ledger goes with, in which its result is recorded as well. What was recorded before still is, so
that for two actions one after the other the second one begins with the ledger that the first
one ends with.
-/

namespace DualScope

/-! ## States -/

/-- The ledger goes with the state. -/
structure State.Shares (κ : Ledger) (σ : State) : Prop where
  bound : ∀ i f, σ.frames.get? i = some f → RecordedBindings κ f.bindings
  free : κ.Free σ.made σ.texts 0

namespace State.Shares

variable {κ κ' : Ledger} {σ : State}

theorem lookup {name : String} {i : FrameId} {v : Value} (h : σ.Shares κ)
    (hv : σ.frames.lookup name i = some v) : v.Recorded κ := by
  obtain ⟨j, f, b, hf, hb, rfl⟩ := Frames.bound_of_lookup hv
  exact h.bound j f hf b hb

theorem emit (h : σ.Shares κ) (e : Event) : (σ.emit e).Shares κ :=
  ⟨h.bound, h.free⟩

/-- The ledger has grown with the identities that were given out. -/
theorem count {made texts : Nat} (h : σ.Shares κ) (hκ : κ.Within κ')
    (hfree : κ'.Free made texts 0) : State.Shares κ' { σ with made := made, texts := texts } :=
  ⟨fun i f hf => (h.bound i f hf).mono hκ, hfree⟩

theorem bind (h : σ.Shares κ) (i : FrameId) (name : String) {v : Value} (hv : v.Recorded κ) :
    State.Shares κ { σ with frames := σ.frames.bind i name v } := by
  refine ⟨fun j f hf => ?_, h.free⟩
  rw [Frames.get?_bind] at hf
  split at hf
  · obtain ⟨g, hg, rfl⟩ := Option.map_eq_some_iff.mp hf
    exact (h.bound j g hg).insert name hv
  · exact h.bound j f hf

theorem push (h : σ.Shares κ) {f : Frame} (hf : RecordedBindings κ f.bindings) :
    (σ.push f).Shares κ := by
  refine ⟨fun j g hg => ?_, h.free⟩
  rw [State.push, Frames.get?_push] at hg
  split at hg
  · cases hg
    exact hf
  · exact h.bound j g hg

end State.Shares

/-! ## Actions -/

/-- A larger ledger goes with the state at the end, and `P` holds of it and of the result. -/
def Ending.Shares (κ : Ledger) (P : Ledger → α → Prop) : Ending α → Prop
  | .value a σ => ∃ κ' : Ledger, κ.Within κ' ∧ σ.Shares κ' ∧ P κ' a
  | .error _ σ => ∃ κ' : Ledger, κ.Within κ' ∧ σ.Shares κ'
  | .cutShort => True

/-- From a state that the ledger goes with the action comes to such an ending. -/
def Action.Shares (κ : Ledger) (P : Ledger → α → Prop) (x : Action α) : Prop :=
  ∀ σ, σ.Shares κ → (x σ).Shares κ P

/-- What is runnable is evaluated to values that are recorded. -/
def Evaluation.Shares (eval : Evaluation) : Prop :=
  ∀ (κ : Ledger) (e : Value) i, e.Runnable κ → (eval e i).Shares κ Value.Recorded

namespace Action.Shares

variable {κ : Ledger} {P : Ledger → α → Prop} {Q : Ledger → β → Prop}

theorem pure {a : α} (h : P κ a) : (Pure.pure a : Action α).Shares κ P :=
  fun _ hσ => ⟨κ, .refl κ, hσ, h⟩

theorem fail (e : EvalError) : (Action.fail e : Action α).Shares κ P :=
  fun _ hσ => ⟨κ, .refl κ, hσ⟩

theorem bind {x : Action α} {f : α → Action β} (hx : x.Shares κ P)
    (hf : ∀ κ' a, κ.Within κ' → P κ' a → (f a).Shares κ' Q) : (x >>= f).Shares κ Q := by
  intro σ hσ
  have hends := hx σ hσ
  rw [bind_apply]
  cases h : x σ with
  | value a σ₁ =>
      rw [h] at hends
      obtain ⟨κ₁, hκ₁, hσ₁, ha⟩ := hends
      have hrest := hf κ₁ a hκ₁ ha σ₁ hσ₁
      dsimp only
      cases h' : f a σ₁ with
      | value b σ₂ =>
          rw [h'] at hrest
          obtain ⟨κ₂, hκ₂, hσ₂, hb⟩ := hrest
          exact ⟨κ₂, hκ₁.trans hκ₂, hσ₂, hb⟩
      | error e σ₂ =>
          rw [h'] at hrest
          obtain ⟨κ₂, hκ₂, hσ₂⟩ := hrest
          exact ⟨κ₂, hκ₁.trans hκ₂, hσ₂⟩
      | cutShort => trivial
  | error e σ₁ =>
      rw [h] at hends
      exact hends
  | cutShort => trivial

theorem attempt {x : Action α} (hx : x.Shares κ P) :
    x.attempt.Shares κ fun κ' r => ∀ a, r = .ok a → P κ' a := by
  intro σ hσ
  have hends := hx σ hσ
  rw [attempt_apply]
  cases h : x σ with
  | value a σ₁ =>
      rw [h] at hends
      obtain ⟨κ₁, hκ₁, hσ₁, ha⟩ := hends
      exact ⟨κ₁, hκ₁, hσ₁, fun b hb => by cases hb; exact ha⟩
  | error e σ₁ =>
      rw [h] at hends
      obtain ⟨κ₁, hκ₁, hσ₁⟩ := hends
      exact ⟨κ₁, hκ₁, hσ₁, nofun⟩
  | cutShort => trivial

theorem ofExcept {x : Except EvalError α} (h : ∀ a, x = .ok a → P κ a) :
    (Action.ofExcept x).Shares κ P := by
  cases x with
  | ok a => exact pure (h a rfl)
  | error e => exact fail e

/-! ## Acts -/

theorem emit (e : Event) : (Action.change (·.emit e)).Shares κ fun _ _ => True :=
  fun _ hσ => ⟨κ, .refl κ, hσ.emit e, trivial⟩

theorem look (f : State → α) : (Action.look f).Shares κ fun _ _ => True :=
  fun _ hσ => ⟨κ, .refl κ, hσ, trivial⟩

/-- An identity that no pair gets need not be in the ledger. -/
theorem freshIdentity : Action.freshIdentity.Shares κ fun _ _ => True := by
  intro σ hσ
  obtain ⟨κ', hκ, hfree, -⟩ := hσ.free.record_made default
  exact ⟨κ', hκ, hσ.count hκ hfree, trivial⟩

/-- A new pair gets into the ledger. -/
theorem newPair {v w : Value} (hv : v.Recorded κ) (hw : w.Recorded κ) (span : Span) :
    (Action.freshIdentity >>= fun id => Pure.pure (Value.pair id v w span)).Shares κ
      Value.Recorded := by
  intro σ hσ
  obtain ⟨κ', hκ, hfree, hparts⟩ := hσ.free.record_made (v, w)
  exact ⟨κ', hκ, hσ.count hκ hfree, hparts, hv.mono hκ, hw.mono hκ⟩

theorem newFrame {f : Frame} (h : RecordedBindings κ f.bindings) :
    (Action.newFrame f).Shares κ fun _ _ => True :=
  fun _ hσ => ⟨κ, .refl κ, hσ.push h, trivial⟩

theorem bindIn (i : FrameId) (name : String) {v : Value} (h : v.Recorded κ) :
    (Action.bindIn i name v).Shares κ fun _ _ => True :=
  fun _ hσ => ⟨κ, .refl κ, hσ.bind i name h, trivial⟩

theorem lookup (i : FrameId) (name : String) (span : Span) :
    (Action.lookup i name span).Shares κ Value.Recorded := by
  intro σ hσ
  unfold Action.lookup
  cases hv : σ.frames.lookup name i with
  | some v => exact ⟨κ, .refl κ, hσ, hσ.lookup hv⟩
  | none => exact ⟨κ, .refl κ, hσ⟩

theorem define (i : FrameId) (target : Value) {v : Value} (hv : v.Recorded κ) :
    (Action.define i target v).Shares κ fun _ _ => True := by
  unfold Action.define
  cases target.symbol? with
  | some name => exact bindIn i name hv
  | none => exact fail _

theorem callFrame (parent : FrameId) (formals : Value) {args : Value} (span : Span)
    (hargs : ∀ v ∈ args.elements, v.Recorded κ) :
    (Action.callFrame parent formals args span).Shares κ fun _ _ => True := by
  have hbindings : (Action.ofExcept (callBindings formals args span)).Shares κ RecordedBindings :=
    ofExcept fun _ h => recorded_callBindings hargs h
  exact hbindings.bind fun _ _ _ hbs => newFrame hbs

end Action.Shares

end DualScope
