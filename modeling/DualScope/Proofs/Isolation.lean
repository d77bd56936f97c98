import DualScope.Proofs.Reachable
import Mathlib

/-!
# What an evaluation can see

An evaluation sees the frame it is done in and what can be reached from there: the
frames above, the frames that the closures bound in these were made in, and so on. If a
set of frames is closed under this, what lies outside of it makes no difference. Two
states that agree on the set lead to the same outcome and the same output, and go on to
agree on the set and on all frames that are made.

This is what makes `lambda` lexically scoped: the body of a call is evaluated below the
frame that the closure was made in, so the frame of the caller need not be in the set.
For a `mu` that would be false, since its frames hang below that of the caller.

The argument has two halves. That nothing reaches out of the set is a discipline, and so
holds of any one evaluation; that two evaluations agree is a pairing over this
discipline. All that is left to show about the evaluator is that looking up a name and
finding the global frame do not leave the set.
-/

namespace DualScope

/-! ## Sets of frames -/

/-- Every closure in the value was made in a frame of the set. -/
def Value.MadeIn (S : FrameId → Prop) (v : Value) : Prop :=
  v.Every fun c => ∀ j, c.home? = some j → S j

/-- Nothing leads out of the set: neither to a parent, nor from a bound value to the frame
of a closure in it. -/
structure State.Enclosed (S : FrameId → Prop) (σ : State) : Prop where
  parent : ∀ j f p, S j → σ.frames.get? j = some f → f.parent = some p → S p
  bound : ∀ j f, S j → σ.frames.get? j = some f → ∀ b ∈ f.bindings, b.2.MadeIn S

/-- The states have the same files, have made as many frames and the same identities, and
agree on the frames of the set. What went out so far may differ. -/
structure State.AgreeOn (S : FrameId → Prop) (σ τ : State) : Prop where
  files : τ.files = σ.files
  made : τ.made = σ.made
  texts : τ.texts = σ.texts
  size : τ.frames.size = σ.frames.size
  frames : ∀ j, S j → τ.frames.get? j = σ.frames.get? j

/-- The set with all frames from number `n` on. -/
def withNew (S : FrameId → Prop) (n : Nat) (j : FrameId) : Prop :=
  S j ∨ n ≤ j

namespace State.AgreeOn

variable {S : FrameId → Prop} {σ τ : State}

theorem symm (h : σ.AgreeOn S τ) : τ.AgreeOn S σ :=
  ⟨h.files.symm, h.made.symm, h.texts.symm, h.size.symm, fun j hj => (h.frames j hj).symm⟩

theorem enclosed (h : σ.AgreeOn S τ) (hS : σ.Enclosed S) : τ.Enclosed S := by
  constructor
  · intro j f p hj hf hp
    rw [h.frames j hj] at hf
    exact hS.parent j f p hj hf hp
  · intro j f hj hf
    rw [h.frames j hj] at hf
    exact hS.bound j f hj hf

/-- States that agree on a set agree also on the frames that are not there yet. -/
theorem withNew (h : σ.AgreeOn S τ) : σ.AgreeOn (DualScope.withNew S σ.frames.size) τ := by
  refine { h with frames := ?_ }
  rintro j (hj | hj)
  · exact h.frames j hj
  · have hσ : σ.frames.get? j = none := by
      rw [← Option.not_isSome_iff_eq_none, Frames.get?_isSome]
      exact Nat.not_lt_of_le hj
    have hτ : τ.frames.get? j = none := by
      rw [← Option.not_isSome_iff_eq_none, Frames.get?_isSome, h.size]
      exact Nat.not_lt_of_le hj
    rw [hσ, hτ]

end State.AgreeOn

theorem Value.MadeIn.withNew {S : FrameId → Prop} {v : Value} (h : v.MadeIn S) (n : Nat) :
    v.MadeIn (DualScope.withNew S n) :=
  Value.Every.mono (fun _ hc j hj => .inl (hc j hj)) h

/-! ## Walks inside of a set -/

namespace Frames

variable {S : FrameId → Prop} {fs gs : Frames} {i : FrameId}

theorem lookup_congr (hagree : ∀ j, S j → gs.get? j = fs.get? j)
    (hparent : ∀ j f p, S j → fs.get? j = some f → f.parent = some p → S p)
    (name : String) (hi : S i) : gs.lookup name i = fs.lookup name i := by
  induction i using Nat.strongRecOn with
  | ind i ih =>
      rw [lookup.eq_def, lookup.eq_def, hagree i hi]
      cases hf : fs.get? i with
      | none => rfl
      | some f =>
          dsimp only
          cases f.find? name with
          | some v => rfl
          | none =>
              cases hp : f.parent with
              | none => rfl
              | some p =>
                  dsimp only
                  split
                  · next hlt => exact ih p hlt (hparent i f p hi hf hp)
                  · rfl

theorem chain_congr (hagree : ∀ j, S j → gs.get? j = fs.get? j)
    (hparent : ∀ j f p, S j → fs.get? j = some f → f.parent = some p → S p)
    (hi : S i) : gs.chain i = fs.chain i := by
  induction i using Nat.strongRecOn with
  | ind i ih =>
      rw [chain.eq_def, chain.eq_def, hagree i hi]
      cases hf : fs.get? i with
      | none => rfl
      | some f =>
          dsimp only
          cases hp : f.parent with
          | none => rfl
          | some p =>
              dsimp only
              split
              · next hlt => rw [ih p hlt (hparent i f p hi hf hp)]
              · rfl

theorem root_congr (hagree : ∀ j, S j → gs.get? j = fs.get? j)
    (hparent : ∀ j f p, S j → fs.get? j = some f → f.parent = some p → S p)
    (hi : S i) : gs.root i = fs.root i := by
  rw [root, root, chain_congr hagree hparent hi]

end Frames

/-! ## Staying inside -/

/-- Of the frames outside of the set, none was changed. -/
def State.KeepsOutside (S : FrameId → Prop) (σ σ' : State) : Prop :=
  ∀ j, ¬ S j → σ'.frames.get? j = σ.frames.get? j

/-- From `start` on, things are evaluated in frames of the set and in new ones, from which
nothing leads out. -/
structure State.Inside (S : FrameId → Prop) (start σ : State) : Prop where
  grows : start.Grows σ
  parent : ∀ j f p, withNew S start.frames.size j → σ.frames.get? j = some f →
    f.parent = some p → withNew S start.frames.size p

def Discipline.inside (S : FrameId → Prop) (start : State) : Discipline where
  inv := State.Inside S start
  frame _ j := withNew S start.frames.size j
  closure _ c := ∀ j, c.home? = some j → withNew S start.frames.size j
  moves _ σ σ' := σ.Grows σ' ∧ σ.KeepsOutside (withNew S start.frames.size) σ'
  moves_refl := ⟨.refl _, fun _ _ => rfl⟩
  moves_trans h₁ h₂ := ⟨h₁.1.trans h₂.1, fun j hj => (h₂.2 j hj).trans (h₁.2 j hj)⟩
  moves_inside h₁ _ h₂ := ⟨h₁.1.trans h₂.1, fun j hj => (h₂.2 j hj).trans (h₁.2 j hj)⟩
  moves_load _ _ h := ⟨(State.grows_emit _ _).trans h.1, h.2⟩
  moves_size h := h.1.size
  moves_log h := h.1.log
  frame_mono _ h := h
  frame_old _ _ h := h
  frame_parent hinv hj hf hp := hinv.parent _ _ _ hj hf hp
  closure_mono _ h := h
  closure_home h := h _ rfl
  closure_lambda hi _ j hj := by cases hj; exact hi
  closure_mu _ j hj := by cases hj
  emit _ e h :=
    ⟨⟨h.grows.trans (State.grows_emit _ e), h.parent⟩, State.grows_emit _ e, fun _ _ => rfl⟩
  count _ made texts h :=
    ⟨⟨⟨h.grows.size, h.grows.log⟩, h.parent⟩, ⟨Nat.le_refl _, List.suffix_refl _⟩, fun _ _ => rfl⟩
  bind {σ i} name v h hi _ := by
    have hgrows := State.grows_bind σ i name v
    refine ⟨⟨h.grows.trans hgrows, ?_⟩, hgrows, ?_⟩
    · intro j f p hj hf hp
      rw [Frames.get?_bind] at hf
      split at hf
      · obtain ⟨g, hg, rfl⟩ := Option.map_eq_some_iff.mp hf
        exact h.parent j g p hj hg hp
      · exact h.parent j f p hj hf hp
    · intro j hj
      have hne : i ≠ j := by
        rintro rfl
        exact hj hi
      rw [Frames.get?_bind, if_neg hne]
  push {σ q} i bindings h hq _ := by
    have hgrows := State.grows_push σ ⟨some q, bindings⟩
    refine ⟨⟨h.grows.trans hgrows, ?_⟩, ⟨hgrows, ?_⟩, .inr h.grows.size⟩
    · intro j f p hj hf hp
      rw [State.push, Frames.get?_push] at hf
      split at hf
      · cases hf
        cases hp
        exact hq
      · exact h.parent j f p hj hf hp
    · intro j hj
      have hne : j ≠ σ.frames.size := by
        rintro rfl
        exact hj (.inr h.grows.size)
      rw [State.push, Frames.get?_push, if_neg hne]

theorem State.Enclosed.sound {S : FrameId → Prop} {σ : State} (h : σ.Enclosed S) :
    (Discipline.inside S σ).Sound σ := by
  have old : ∀ {j f}, withNew S σ.frames.size j → σ.frames.get? j = some f → S j := by
    intro j f hj hf
    have hlt : j < σ.frames.size := Frames.lt_size hf
    exact hj.resolve_right (Nat.not_le_of_lt hlt)
  refine ⟨⟨.refl σ, ?_⟩, ?_⟩
  · exact fun j f p hj hf hp => .inl (h.parent j f p (old hj hf) hf hp)
  · exact fun j f hj hf b hb => (h.bound j f (old hj hf) hf b hb).withNew _

/-! ## Two states side by side -/

/-- What the states have come to, from `start` and from `start'`: they agree on the set
and on all new frames, and the same went out. -/
structure State.Beside (S : FrameId → Prop) (start start' σ τ : State) : Prop where
  agree : σ.AgreeOn (withNew S start.frames.size) τ
  log : ∃ new, σ.log = new ++ start.log ∧ τ.log = new ++ start'.log

theorem State.Beside.start {S : FrameId → Prop} {σ τ : State} (h : σ.AgreeOn S τ) :
    Beside S σ τ σ τ :=
  ⟨h.withNew, [], rfl, rfl⟩

def Pairing.beside (S : FrameId → Prop) (start start' : State) :
    Pairing (Discipline.inside S start) where
  rel := State.Beside S start start'
  error _ := True
  event _ := True
  escape _ := False
  error_of_event _ := trivial
  not_escape_of_event _ h := h
  exists_rel {σ} h := by
    obtain ⟨new, hnew⟩ := h.inv.grows.log
    exact ⟨{ σ with log := new ++ start'.log }, ⟨rfl, rfl, rfl, rfl, fun _ _ => rfl⟩,
      new, hnew.symm, rfl⟩
  files h := h.agree.files
  made h := h.agree.made
  texts h := h.agree.texts
  size h := h.agree.size
  lookup name hs h hi := Frames.lookup_congr h.agree.frames hs.inv.parent name hi
  root hs h hi := Frames.root_congr h.agree.frames hs.inv.parent hi
  emit e h := by
    obtain ⟨hagree, new, hσ, hτ⟩ := h
    refine ⟨⟨hagree.files, hagree.made, hagree.texts, hagree.size, hagree.frames⟩, e :: new, ?_, ?_⟩
    · exact congrArg (e :: ·) hσ
    · exact congrArg (e :: ·) hτ
  count made texts h := ⟨⟨h.agree.files, rfl, rfl, h.agree.size, h.agree.frames⟩, h.log⟩
  bind {σ τ i} name v h _ := by
    refine ⟨⟨h.agree.files, h.agree.made, h.agree.texts, ?_, ?_⟩, h.log⟩
    · rw [Frames.size_bind, Frames.size_bind, h.agree.size]
    · intro j hj
      rw [Frames.get?_bind, Frames.get?_bind, h.agree.frames j hj]
  push {σ τ} f h := by
    refine ⟨⟨h.agree.files, h.agree.made, h.agree.texts, ?_, ?_⟩, h.log⟩
    · rw [State.push, State.push, Frames.size_push, Frames.size_push, h.agree.size]
    · intro j hj
      rw [State.push, State.push, Frames.get?_push, Frames.get?_push, h.agree.size,
        h.agree.frames j hj]

/-! ## Calls from outside -/

namespace Eval

/-- Calls a procedure with a list of arguments from frame `i` and sees the call through to
its end, from `level` evaluations deep. From the outermost level, with the span of the
procedure, it is what a host calls, `Session.apply`. -/
def call (s : Settings) (budget level : Nat) (i : FrameId) (callee args : Value) (span : Span) :
    Action Value := do
  match ← apply (nested s budget level) i args callee span with
  | .done v => return v
  | .eval e frame => nested s budget level e frame

theorem call_lambda (s : Settings) (budget level : Nat) (i : FrameId) (id : Identity)
    (formals body : Value) (home : FrameId) (lspan : Span) (args : Value) (span : Span) :
    call s budget level i (.lambda id formals body home lspan) args span =
      Action.callFrame home formals args span >>= nested s budget level body := by
  rw [call, apply.eq_4, bind_assoc]
  rfl

/-- The call comes to the end `r`. -/
def CallEnds (s : Settings) (level : Nat) (i : FrameId) (callee args : Value) (span : Span)
    (σ : State) (r : Ending Value) : Prop :=
  r ≠ .cutShort ∧ ∃ budget, call s budget level i callee args span σ = r

end Eval

/-- The call of a `lambda` is in lockstep in the frame that it was made in, wherever the two
calls come from. -/
theorem Pairing.Lockstep.callLambda {D : Discipline} {P : Pairing D} {σ τ : State}
    {home : FrameId} (h : P.At home σ τ) (s : Settings) (budget level : Nat) (i i' : FrameId)
    {id : Identity} {formals body args : Value} {lspan : Span} (span : Span)
    (hcallee : D.Fine σ.frames.size (.lambda id formals body home lspan))
    (hargs : D.Fine σ.frames.size args) :
    P.Lockstep home σ τ (Eval.call s budget level i (.lambda id formals body home lspan) args span)
      (Eval.call s budget level i' (.lambda id formals body home lspan) args span) D.Fine := by
  have hself : P.Evaluations (Eval.nested s budget level) (Eval.nested s budget level) :=
    .nested_budget (Nat.le_refl _)
  rw [Eval.call_lambda, Eval.call_lambda]
  refine .bind_inside (.callFrame h span h.here hargs) ?_
  intro j σ₁ τ₁ hle hs hrel hj
  exact ⟨j, .inr hj.2, hself body j σ₁ τ₁ ⟨hs, hrel, hj.1⟩ (Discipline.Fine.mono hcallee.2.2 hle)⟩

/-! ## Ends that are alike -/

/-- Two endings with the same outcome, in states that are related. -/
inductive Ending.Alike (R : State → State → Prop) : Ending α → Ending α → Prop
  | value (a : α) {σ τ : State} : R σ τ → Alike R (.value a σ) (.value a τ)
  | error (e : EvalError) {σ τ : State} : R σ τ → Alike R (.error e σ) (.error e τ)

/-- Two evaluations come to their ends together, and in the same way. -/
structure EndAlike (R : State → State → Prop) (x y : Ending Value → Prop) : Prop where
  left : ∀ r, x r → ∃ r', y r' ∧ r.Alike R r'
  right : ∀ r', y r' → ∃ r, x r ∧ r.Alike R r'

/-- What becomes of two states that agree on a set of frames: they agree on the set and on
all frames made meanwhile, the same went out, and nothing outside of the set was changed. -/
structure State.Isolated (S : FrameId → Prop) (σ τ σ' τ' : State) : Prop where
  beside : Beside S σ τ σ' τ'
  left : σ.KeepsOutside (withNew S σ.frames.size) σ'
  right : τ.KeepsOutside (withNew S σ.frames.size) τ'

section

variable {S : FrameId → Prop} {σ τ : State}

theorem Ending.Alike.flip {r r' : Ending α} (hsize : τ.frames.size = σ.frames.size)
    (h : r.Alike (State.Isolated S τ σ) r') : r'.Alike (State.Isolated S σ τ) r := by
  have flipped : ∀ {τ' σ'}, State.Isolated S τ σ τ' σ' → State.Isolated S σ τ σ' τ' := by
    rintro τ' σ' ⟨⟨hagree, new, hτ, hσ⟩, hleft, hright⟩
    rw [hsize] at hagree hleft hright
    exact ⟨⟨hagree.symm, new, hσ, hτ⟩, hright, hleft⟩
  cases h with
  | value a h => exact .value a (flipped h)
  | error e h => exact .error e (flipped h)

/-- From states that agree, actions in lockstep come to the same end, if they come to one. -/
theorem Pairing.Lockstep.isolated {x y : Action Value} {i i' : FrameId}
    {post post' : Nat → Value → Prop} (hsize : τ.frames.size = σ.frames.size)
    (h : (beside S σ τ).Lockstep i σ τ x y post)
    (hy : (Discipline.inside S τ).Allows i' τ post' (y τ)) (hx : x σ ≠ .cutShort) :
    y τ ≠ .cutShort ∧ (x σ).Alike (State.Isolated S σ τ) (y τ) := by
  obtain ⟨hallows, hfollows⟩ := h
  have no_escape : ¬ (beside S σ τ).Escapes (y τ) := fun ⟨_, _, _, he⟩ => he
  have isolated : ∀ {σ' τ'}, (x σ).state? = some σ' → (y τ).state? = some τ' →
      State.Beside S σ τ σ' τ' → State.Isolated S σ τ σ' τ' := by
    intro σ' τ' hσ' hτ' hrel
    have hright := (hy.reaches hτ').1.2
    rw [hsize] at hright
    exact ⟨hrel, (hallows.reaches hσ').1.2, hright⟩
  cases hxr : x σ with
  | value v σ' =>
      rw [hxr] at hfollows
      obtain ⟨τ', hyr, hrel⟩ := (hfollows fun _ _ => trivial).resolve_left no_escape
      rw [hyr]
      exact ⟨by simp, .value v (isolated (by rw [hxr]; rfl) (by rw [hyr]; rfl) hrel)⟩
  | error e σ' =>
      rw [hxr] at hfollows
      obtain ⟨τ', hyr, hrel⟩ := (hfollows (fun _ _ => trivial) trivial).resolve_left no_escape
      rw [hyr]
      exact ⟨by simp, .error e (isolated (by rw [hxr]; rfl) (by rw [hyr]; rfl) hrel)⟩
  | cutShort => exact absurd hxr hx

theorem State.AgreeOn.at_frame (hagree : σ.AgreeOn S τ) (hS : σ.Enclosed S) {i : FrameId}
    (hi : S i) : (Pairing.beside S σ τ).At i σ τ :=
  ⟨hS.sound, .start hagree, .inl hi⟩

theorem EndAlike.of_budgets {x y : Nat → Action Value} (hsize : τ.frames.size = σ.frames.size)
    (hxy : ∀ budget, x budget σ ≠ .cutShort →
      y budget τ ≠ .cutShort ∧ (x budget σ).Alike (State.Isolated S σ τ) (y budget τ))
    (hyx : ∀ budget, y budget τ ≠ .cutShort →
      x budget σ ≠ .cutShort ∧ (y budget τ).Alike (State.Isolated S τ σ) (x budget σ)) :
    EndAlike (State.Isolated S σ τ) (fun r => r ≠ .cutShort ∧ ∃ budget, x budget σ = r)
      (fun r => r ≠ .cutShort ∧ ∃ budget, y budget τ = r) := by
  constructor
  · rintro _ ⟨hne, budget, rfl⟩
    obtain ⟨hne', halike⟩ := hxy budget hne
    exact ⟨_, ⟨hne', budget, rfl⟩, halike⟩
  · rintro _ ⟨hne, budget, rfl⟩
    obtain ⟨hne', halike⟩ := hyx budget hne
    exact ⟨_, ⟨hne', budget, rfl⟩, halike.flip hsize⟩

/-! ## Isolation -/

variable (s : Settings) (budget level : Nat)

theorem nested_isolated (hagree : σ.AgreeOn S τ) (hS : σ.Enclosed S) {i : FrameId} (hi : S i)
    {e : Value} (he : e.MadeIn S) (hne : Eval.nested s budget level e i σ ≠ .cutShort) :
    Eval.nested s budget level e i τ ≠ .cutShort ∧ (Eval.nested s budget level e i σ).Alike
      (State.Isolated S σ τ) (Eval.nested s budget level e i τ) := by
  have hself : (Pairing.beside S σ τ).Evaluations (Eval.nested s budget level)
      (Eval.nested s budget level) := .nested_budget (Nat.le_refl _)
  have hright : (Discipline.inside S τ).Allows i τ _ (Eval.nested s budget level e i τ) :=
    (Discipline.inside S τ).nested_allows (hagree.enclosed hS).sound (.inl hi) (he.withNew _)
  exact (hself e i σ τ (hagree.at_frame hS hi) (he.withNew _)).isolated hagree.size hright hne

theorem call_isolated (hagree : σ.AgreeOn S τ) (hS : σ.Enclosed S) {id : Identity}
    {formals body args : Value} {home : FrameId} {lspan : Span} (span : Span) (i i' : FrameId)
    (hcallee : (Value.lambda id formals body home lspan).MadeIn S) (hargs : args.MadeIn S)
    (hne : Eval.call s budget level i (.lambda id formals body home lspan) args span σ ≠
      .cutShort) :
    Eval.call s budget level i' (.lambda id formals body home lspan) args span τ ≠ .cutShort ∧
      (Eval.call s budget level i (.lambda id formals body home lspan) args span σ).Alike
        (State.Isolated S σ τ)
        (Eval.call s budget level i' (.lambda id formals body home lspan) args span τ) := by
  have hhome : S home := hcallee.1 home rfl
  have hS' := hagree.enclosed hS
  have hlock := Pairing.Lockstep.callLambda (hagree.at_frame hS hhome) s budget level i i' span
    (hcallee.withNew _) (hargs.withNew _)
  have hright : (Pairing.all (.inside S τ)).At home τ τ := ⟨hS'.sound, rfl, .inl hhome⟩
  have hlock' := Pairing.Lockstep.callLambda hright s budget level i' i' span
    (hcallee.withNew _) (hargs.withNew _)
  exact hlock.isolated hagree.size hlock'.allows hne

end

/-- What lies outside of a closed set of frames makes no difference to what is evaluated
in a frame of the set, nor to the call of a `lambda` that was made in one, wherever it is
called from. -/
theorem lexical_isolation {S : FrameId → Prop} {σ τ : State} (hagree : σ.AgreeOn S τ)
    (hS : σ.Enclosed S) (s : Settings) (level : Nat) :
    (∀ e i, S i → e.MadeIn S →
      EndAlike (State.Isolated S σ τ) (Eval.Ends s level e i σ) (Eval.Ends s level e i τ)) ∧
    ∀ id formals body home lspan args span i i',
      (Value.lambda id formals body home lspan).MadeIn S → args.MadeIn S →
      EndAlike (State.Isolated S σ τ)
        (Eval.CallEnds s level i (.lambda id formals body home lspan) args span σ)
        (Eval.CallEnds s level i' (.lambda id formals body home lspan) args span τ) := by
  have hagree' := hagree.symm
  have hS' := hagree.enclosed hS
  constructor
  · intro e i hi he
    refine EndAlike.of_budgets hagree.size ?_ ?_
    · exact fun budget hne => nested_isolated s budget level hagree hS hi he hne
    · exact fun budget hne => nested_isolated s budget level hagree' hS' hi he hne
  · intro id formals body home lspan args span i i' hcallee hargs
    refine EndAlike.of_budgets hagree.size ?_ ?_
    · exact fun budget hne =>
        call_isolated s budget level hagree hS span i i' hcallee hargs hne
    · exact fun budget hne =>
        call_isolated s budget level hagree' hS' span i' i hcallee hargs hne

section

/-- A global frame that binds `x`, and a frame below it in which `x` is `v`. -/
def shadowed (v : Value) : State :=
  ((State.initial fun _ => .error .notFound).push ⟨none, [("x", .boolean true .none)]⟩).push
    ⟨some 0, [("x", v)]⟩

/-- `(define y x)` -/
def defineY : Value :=
  .ofList [.symbol "define" .none, .symbol "y" .none, .symbol "x" .none]

/-- `(lambda () x)`, as it was made in the global frame. -/
def giveX : Value :=
  .lambda (.made 0) (.nil .none) (.symbol "x" .none) 0 .none

theorem shadowed_enclosed (v : Value) : (shadowed v).Enclosed (· = 0) := by
  constructor
  · rintro j f p rfl hf hp
    cases hf
    cases hp
  · rintro j f rfl hf
    cases hf
    exact List.forall_mem_singleton.mpr trivial

theorem shadowed_agreeOn (v w : Value) : (shadowed v).AgreeOn (· = 0) (shadowed w) :=
  ⟨rfl, rfl, rfl, rfl, by rintro j rfl; rfl⟩

theorem giveX_ends (v : Value) : Eval.CallEnds ⟨.tailCall, 2⟩ 0 1 giveX (.nil .none) .none
    (shadowed v) (.value (.boolean true .none) ((shadowed v).push ⟨some 0, []⟩)) := by
  refine ⟨by simp, 2, ?_⟩
  cbv

/-- `(define y x)` in the global frame, and a call of `(lambda () x)` from the frame below. -/
theorem lexical_isolation_shadowed :
    EndAlike (State.Isolated (· = 0) (shadowed (.boolean false .none)) (shadowed (.nil .none)))
        (Eval.Ends ⟨.tailCall, 2⟩ 0 defineY 0 (shadowed (.boolean false .none)))
        (Eval.Ends ⟨.tailCall, 2⟩ 0 defineY 0 (shadowed (.nil .none))) ∧
      ∃ r', Eval.CallEnds ⟨.tailCall, 2⟩ 0 1 giveX (.nil .none) .none (shadowed (.nil .none)) r' ∧
        (Ending.value (.boolean true .none)
          ((shadowed (.boolean false .none)).push ⟨some 0, []⟩)).Alike
            (State.Isolated (· = 0) (shadowed (.boolean false .none)) (shadowed (.nil .none))) r' := by
  have h := lexical_isolation (shadowed_agreeOn (.boolean false .none) (.nil .none))
    (shadowed_enclosed _) ⟨.tailCall, 2⟩ 0
  have hgiveX : giveX.MadeIn (· = 0) := by
    refine ⟨fun j hj => ?_, trivial, trivial⟩
    cases hj
    rfl
  constructor
  · exact h.1 defineY 0 rfl ⟨trivial, trivial, trivial, trivial⟩
  · exact (h.2 _ _ _ _ _ (.nil .none) .none 1 1 hgiveX trivial).left _ (giveX_ends _)

end

end DualScope
