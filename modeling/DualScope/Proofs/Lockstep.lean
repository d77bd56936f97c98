import DualScope.Proofs.Discipline

/-!
# Two evaluations in lockstep

When two evaluations agree is asked of the whole evaluator again and again: of two
strategies, of two limits, of two budgets. A *pairing* compares one evaluation with
another: how their states are related, and under which terms they have to agree. It
need not say anything about runs that end with an error, or let something go out,
that the terms do not accept; and the other run may end with an error that is an
*escape* instead of agreeing. An error inside of a `load` is swallowed there, which is
why no escape is allowed once a file has been asked for.

One action is in lockstep with another when the first keeps the discipline and the
second agrees with it as far as the terms go. The composition of actions in lockstep
is in lockstep, and that is all that the evaluator needs to know. An action that is
in lockstep with itself just keeps the discipline.
-/

namespace DualScope

/-! ## Pairings -/

/-- How an evaluation is compared with another one. -/
structure Pairing (D : Discipline) where
  /-- When the state of the other run fits to that of the first. -/
  rel : State → State → Prop
  /-- The errors with which the first run may end for the other one to agree. -/
  error : EvalError → Prop
  /-- What may go out. -/
  event : Event → Prop
  /-- The errors that the other run may end with all the same. -/
  escape : EvalError → Prop
  error_of_event : ∀ {source text e}, event (.reported source text (.eval e)) → error e
  not_escape_of_event : ∀ {name e}, event (.opened name) → ¬ escape e
  exists_rel : ∀ {σ}, D.Sound σ → ∃ τ, rel σ τ
  files : ∀ {σ τ}, rel σ τ → τ.files = σ.files
  made : ∀ {σ τ}, rel σ τ → τ.made = σ.made
  texts : ∀ {σ τ}, rel σ τ → τ.texts = σ.texts
  size : ∀ {σ τ}, rel σ τ → τ.frames.size = σ.frames.size
  lookup : ∀ {σ τ i} name, D.Sound σ → rel σ τ → D.frame σ.frames.size i →
    τ.frames.lookup name i = σ.frames.lookup name i
  root : ∀ {σ τ i}, D.Sound σ → rel σ τ → D.frame σ.frames.size i →
    τ.frames.root i = σ.frames.root i
  emit : ∀ {σ τ} e, rel σ τ → rel (σ.emit e) (τ.emit e)
  count : ∀ {σ τ} made texts, rel σ τ →
    rel { σ with made := made, texts := texts } { τ with made := made, texts := texts }
  bind : ∀ {σ τ i} name v, rel σ τ → D.frame σ.frames.size i →
    rel { σ with frames := σ.frames.bind i name v } { τ with frames := τ.frames.bind i name v }
  push : ∀ {σ τ} f, rel σ τ → rel (σ.push f) (τ.push f)

namespace Pairing

variable {D : Discipline}

/-- Two runs from one state, compared under the given terms. -/
def sameState (D : Discipline) (error : EvalError → Prop) (event : Event → Prop)
    (escape : EvalError → Prop)
    (error_of_event : ∀ {source text e}, event (.reported source text (.eval e)) → error e)
    (not_escape_of_event : ∀ {name e}, event (.opened name) → ¬ escape e) : Pairing D where
  rel σ τ := τ = σ
  error := error
  event := event
  escape := escape
  error_of_event := error_of_event
  not_escape_of_event := not_escape_of_event
  exists_rel _ := ⟨_, rfl⟩
  files := by rintro σ _ rfl; rfl
  made := by rintro σ _ rfl; rfl
  texts := by rintro σ _ rfl; rfl
  size := by rintro σ _ rfl; rfl
  lookup := by rintro σ _ i name _ rfl _; rfl
  root := by rintro σ _ i _ rfl _; rfl
  emit := by rintro σ _ e rfl; rfl
  count := by rintro σ _ made texts rfl; rfl
  bind := by rintro σ _ i name v rfl _; rfl
  push := by rintro σ _ f rfl; rfl

/-- A run that is compared with itself, or with one that has to agree in everything. -/
def all (D : Discipline) : Pairing D :=
  sameState D (fun _ => True) (fun _ => True) (fun _ => False) (fun _ => trivial) (fun _ h => h)

variable (P : Pairing D)

/-- All that went out between the states may go out. -/
def Accepts (σ σ' : State) : Prop :=
  ∀ e ∈ σ'.since σ, P.event e

def Escapes (r : Ending α) : Prop :=
  ∃ e τ, r = .error e τ ∧ P.escape e

/-- The states from which something can be evaluated in frame `i` in both runs. -/
structure At (i : FrameId) (σ τ : State) : Prop where
  sound : D.Sound σ
  rel : P.rel σ τ
  here : D.frame σ.frames.size i

/-- The other ending agrees with the first as far as the terms go. -/
def Follows (σ : State) : Ending α → Ending α → Prop
  | .value a σ', r => P.Accepts σ σ' → P.Escapes r ∨ ∃ τ', r = .value a τ' ∧ P.rel σ' τ'
  | .error e σ', r =>
    P.Accepts σ σ' → P.error e → P.Escapes r ∨ ∃ τ', r = .error e τ' ∧ P.rel σ' τ'
  | .cutShort, _ => True

/-- `x` keeps the discipline in frame `i` and ends with a result as `post` says; `y` agrees
with it. -/
structure Lockstep (i : FrameId) (σ τ : State) (x y : Action α) (post : Nat → α → Prop) : Prop where
  allows : D.Allows i σ post (x σ)
  follows : P.Follows σ (x σ) (y τ)

/-- Two ways to evaluate that are in lockstep in every frame and for every expression. -/
def Evaluations (eval eval' : Evaluation) : Prop :=
  ∀ e i σ τ, P.At i σ τ → D.Fine σ.frames.size e →
    P.Lockstep i σ τ (eval e i) (eval' e i) D.Fine

variable {P}

theorem Escapes.bind {y : Action α} {g : α → Action β} {τ : State} (h : P.Escapes (y τ)) :
    P.Escapes ((y >>= g) τ) := by
  obtain ⟨e, τ', hy, he⟩ := h
  refine ⟨e, τ', ?_, he⟩
  rw [Action.bind_apply, hy]

theorem Follows.of_escapes {σ : State} {r r' : Ending α} (h : P.Escapes r') :
    P.Follows σ r r' := by
  cases r with
  | value a σ' => exact fun _ => .inl h
  | error e σ' => exact fun _ _ => .inl h
  | cutShort => trivial

theorem Accepts.split {σ σ₁ σ₂ : State} (h : P.Accepts σ σ₂) (h₁ : σ.log <:+ σ₁.log)
    (h₂ : σ₁.log <:+ σ₂.log) : P.Accepts σ σ₁ ∧ P.Accepts σ₁ σ₂ := by
  rw [Accepts, State.since_trans h₁ h₂] at h
  exact ⟨fun e he => h e (List.mem_append_right _ he),
    fun e he => h e (List.mem_append_left _ he)⟩

theorem Accepts.emitted {σ : State} {e : Event} (h : P.Accepts σ (σ.emit e)) : P.event e :=
  h e (State.mem_since_emit (List.suffix_refl _))

theorem Follows.of_begun {j : FrameId} {σ σ₁ : State} {r r' : Ending α} {post : Nat → α → Prop}
    (hlog : σ.log <:+ σ₁.log) (ha : D.Allows j σ₁ post r)
    (hf : P.Accepts σ σ₁ → P.Follows σ₁ r r') : P.Follows σ r r' := by
  cases r with
  | value a σ₂ =>
      intro hacc
      have hs := hacc.split hlog (D.moves_log ha.1.1)
      exact hf hs.1 hs.2
  | error e σ₂ =>
      intro hacc
      have hs := hacc.split hlog (D.moves_log ha.1)
      exact hf hs.1 hs.2
  | cutShort => trivial

namespace Lockstep

variable {i : FrameId} {σ τ : State}

theorem self {x : Action α} {post : Nat → α → Prop} (h : D.Allows i σ post (x σ)) :
    (all D).Lockstep i σ σ x x post := by
  refine ⟨h, ?_⟩
  cases x σ with
  | value a σ' => exact fun _ => .inr ⟨σ', rfl, rfl⟩
  | error e σ' => exact fun _ _ => .inr ⟨σ', rfl, rfl⟩
  | cutShort => trivial

/-! ## Actions that end at once -/

theorem of_value {x y : Action α} {post : Nat → α → Prop} {a : α} {σ' τ' : State}
    (hx : x σ = .value a σ') (hy : y τ = .value a τ') (hr : D.Reaches i σ σ')
    (hrel : P.rel σ' τ') (hp : post σ'.frames.size a) : P.Lockstep i σ τ x y post := by
  constructor
  · rw [hx]
    exact ⟨hr, hp⟩
  · rw [hx, hy]
    exact fun _ => .inr ⟨τ', rfl, hrel⟩

theorem pure (h : P.At i σ τ) {a : α} {post : Nat → α → Prop} (hp : post σ.frames.size a) :
    P.Lockstep i σ τ (Pure.pure a) (Pure.pure a) post :=
  of_value rfl rfl (D.reaches_refl i h.sound) h.rel hp

theorem fail (h : P.At i σ τ) (e : EvalError) (post : Nat → α → Prop) :
    P.Lockstep i σ τ (Action.fail e) (Action.fail e) post :=
  ⟨D.reaches_refl i h.sound, fun _ _ => .inr ⟨τ, rfl, h.rel⟩⟩

theorem ofExcept (h : P.At i σ τ) {x : Except EvalError α} {post : Nat → α → Prop}
    (hp : ∀ a, x = .ok a → post σ.frames.size a) :
    P.Lockstep i σ τ (Action.ofExcept x) (Action.ofExcept x) post := by
  cases x with
  | ok a => exact pure h (hp a rfl)
  | error e => exact fail h e post

theorem emit (h : P.At i σ τ) (e : Event) :
    P.Lockstep i σ τ (Action.change (·.emit e)) (Action.change (·.emit e)) fun _ _ => True :=
  of_value rfl rfl (D.reaches_emit i e h.sound) (P.emit e h.rel) trivial

theorem freshIdentity (h : P.At i σ τ) :
    P.Lockstep i σ τ Action.freshIdentity Action.freshIdentity fun _ _ => True := by
  refine of_value rfl ?_ (D.reaches_count i (σ.made + 1) σ.texts h.sound)
    (P.count (σ.made + 1) σ.texts h.rel) trivial
  rw [Action.freshIdentity, P.made h.rel, ← P.texts h.rel]

theorem newFrame (h : P.At i σ τ) {p : FrameId} {bindings : List (String × Value)}
    (hp : D.frame σ.frames.size p) (hb : ∀ b ∈ bindings, D.Fine σ.frames.size b.2) :
    P.Lockstep i σ τ (Action.newFrame ⟨some p, bindings⟩) (Action.newFrame ⟨some p, bindings⟩)
      fun n j => D.frame n j ∧ σ.frames.size ≤ j := by
  refine of_value rfl ?_ (D.reaches_push i h.sound hp hb) (P.push _ h.rel) ?_
  · rw [Action.newFrame, P.size h.rel]
  · rw [State.push, Frames.size_push]
    exact ⟨(D.push i bindings h.sound.inv hp hb).2.2, Nat.le_refl _⟩

theorem bindIn (h : P.At i σ τ) (name : String) {v : Value} (hv : D.Fine σ.frames.size v) :
    P.Lockstep i σ τ (Action.bindIn i name v) (Action.bindIn i name v) fun _ _ => True :=
  of_value rfl rfl (D.reaches_bind name h.sound h.here hv) (P.bind name v h.rel h.here) trivial

theorem lookup (h : P.At i σ τ) (name : String) (span : Span) :
    P.Lockstep i σ τ (Action.lookup i name span) (Action.lookup i name span) D.Fine := by
  have hl := P.lookup name h.sound h.rel h.here
  cases hv : σ.frames.lookup name i with
  | some v =>
      have hx : Action.lookup i name span σ = .value v σ := by
        simp only [Action.lookup, hv]
      have hy : Action.lookup i name span τ = .value v τ := by
        simp only [Action.lookup, hl, hv]
      exact of_value hx hy (D.reaches_refl i h.sound) h.rel (h.sound.lookup h.here hv)
  | none =>
      have hx : Action.lookup i name span σ = .error (.unbound name span) σ := by
        simp only [Action.lookup, hv]
      have hy : Action.lookup i name span τ = .error (.unbound name span) τ := by
        simp only [Action.lookup, hl, hv]
      constructor
      · rw [hx]
        exact D.reaches_refl i h.sound
      · rw [hx, hy]
        exact fun _ _ => .inr ⟨τ, rfl, h.rel⟩

/-! ## Composition -/

/-- An action has come as far as `σ₁`, and is in lockstep from there. -/
theorem resume {x y : Action α} {post : Nat → α → Prop} {j : FrameId} {σ₁ : State}
    {r : Ending α} (hx : x σ = r) (ha : D.Allows j σ₁ post r)
    (hr : ∀ σ₂, D.Reaches j σ₁ σ₂ → D.Reaches i σ σ₂) (hlog : σ.log <:+ σ₁.log)
    (hf : P.Accepts σ σ₁ → P.Follows σ₁ r (y τ)) : P.Lockstep i σ τ x y post := by
  constructor <;> rw [hx]
  · exact ha.of_begun hr
  · exact Follows.of_begun hlog ha hf

theorem weaken {x y : Action α} {post post' : Nat → α → Prop} (h : P.Lockstep i σ τ x y post)
    (hp : ∀ n a, σ.frames.size ≤ n → post n a → post' n a) : P.Lockstep i σ τ x y post' := by
  refine ⟨?_, h.follows⟩
  have ha := h.allows
  cases hx : x σ with
  | value a σ' =>
      rw [hx] at ha
      exact ⟨ha.1, hp _ a (D.moves_size ha.1.1) ha.2⟩
  | error e σ' => rw [hx] at ha; exact ha
  | cutShort => trivial

/-- The second action may be done in a frame that was not there when the first began. -/
theorem bind_inside {x y : Action α} {f g : α → Action β} {post : Nat → α → Prop}
    {post' : Nat → β → Prop} (hxy : P.Lockstep i σ τ x y post)
    (hfg : ∀ a σ₁ τ₁, σ.frames.size ≤ σ₁.frames.size → D.Sound σ₁ → P.rel σ₁ τ₁ →
      post σ₁.frames.size a →
      ∃ j, (j = i ∨ σ.frames.size ≤ j) ∧ P.Lockstep j σ₁ τ₁ (f a) (g a) post') :
    P.Lockstep i σ τ (x >>= f) (y >>= g) post' := by
  obtain ⟨ha, hf⟩ := hxy
  cases hx : x σ with
  | cutShort => constructor <;> rw [Action.bind_apply, hx] <;> trivial
  | error e σ₁ =>
      rw [hx] at ha hf
      constructor <;> rw [Action.bind_apply, hx]
      · exact ha
      · intro hacc he
        rcases hf hacc he with hesc | ⟨τ₁, hy, hrel⟩
        · exact .inl hesc.bind
        · exact .inr ⟨τ₁, by rw [Action.bind_apply, hy], hrel⟩
  | value a σ₁ =>
      rw [hx] at ha hf
      obtain ⟨hr, hpost⟩ := ha
      have next := fun τ₁ hrel => hfg a σ₁ τ₁ (D.moves_size hr.1) hr.2 hrel hpost
      -- For the first run alone any state of the other one will do.
      obtain ⟨τ₀, hrel₀⟩ := P.exists_rel hr.2
      obtain ⟨j, hj, hl⟩ := next τ₀ hrel₀
      have hstart : (x >>= f) σ = f a σ₁ := by rw [Action.bind_apply, hx]
      refine .resume hstart hl.allows ?_ (D.moves_log hr.1) ?_
      · intro σ₂ h₂
        rcases hj with rfl | hj
        · exact hr.trans h₂
        · exact ⟨D.moves_inside hr.1 hj h₂.1, h₂.2⟩
      · intro hacc
        rcases hf hacc with hesc | ⟨τ₁, hy, hrel⟩
        · exact .of_escapes hesc.bind
        · obtain ⟨_, _, hl₁⟩ := next τ₁ hrel
          rw [Action.bind_apply, hy]
          exact hl₁.follows

theorem bind {x y : Action α} {f g : α → Action β} {post : Nat → α → Prop}
    {post' : Nat → β → Prop} (h : P.At i σ τ) (hxy : P.Lockstep i σ τ x y post)
    (hfg : ∀ a σ₁ τ₁, σ.frames.size ≤ σ₁.frames.size → P.At i σ₁ τ₁ → post σ₁.frames.size a →
      P.Lockstep i σ₁ τ₁ (f a) (g a) post') :
    P.Lockstep i σ τ (x >>= f) (y >>= g) post' :=
  hxy.bind_inside fun a σ₁ τ₁ hle hs hrel hp =>
    ⟨i, .inl rfl, hfg a σ₁ τ₁ hle ⟨hs, hrel, D.frame_mono hle h.here⟩ hp⟩

/-- Errors that are reported do not end a run: the one in the first run has to be accepted
with its report, and the other run must not escape. -/
theorem attempt_report {x y : Action α} {f g : Except EvalError α → Action β} {k k' : Action β}
    {post : Nat → α → Prop} {post' : Nat → β → Prop} {source text : String}
    (hescape : ∀ e, ¬ P.escape e) (h : P.At i σ τ) (hxy : P.Lockstep i σ τ x y post)
    (herr : ∀ e, f (.error e) = (Run.report source text (.eval e) >>= fun _ => k))
    (herr' : ∀ e, g (.error e) = (Run.report source text (.eval e) >>= fun _ => k'))
    (hfg : ∀ a σ₁ τ₁, σ.frames.size ≤ σ₁.frames.size → P.At i σ₁ τ₁ → post σ₁.frames.size a →
      P.Lockstep i σ₁ τ₁ (f (.ok a)) (g (.ok a)) post')
    (hk : ∀ σ₁ τ₁, σ.frames.size ≤ σ₁.frames.size → P.At i σ₁ τ₁ →
      P.Lockstep i σ₁ τ₁ k k' post') :
    P.Lockstep i σ τ (x.attempt >>= f) (y.attempt >>= g) post' := by
  obtain ⟨ha, hf⟩ := hxy
  have no_escape : ∀ {r : Ending α}, ¬ P.Escapes r :=
    fun ⟨e, _, _, he⟩ => hescape e he
  cases hx : x σ with
  | cutShort => constructor <;> rw [Action.bind_apply, Action.attempt_apply, hx] <;> trivial
  | value a σ₁ =>
      rw [hx] at ha hf
      obtain ⟨hr, hpost⟩ := ha
      have hle := D.moves_size hr.1
      have next := fun τ₁ hrel =>
        hfg a σ₁ τ₁ hle ⟨hr.2, hrel, D.frame_mono hle h.here⟩ hpost
      obtain ⟨τ₀, hrel₀⟩ := P.exists_rel hr.2
      have hl := next τ₀ hrel₀
      have hstart : (x.attempt >>= f) σ = f (.ok a) σ₁ := by
        rw [Action.bind_apply, Action.attempt_apply, hx]
      refine .resume hstart hl.allows (fun σ₂ h₂ => hr.trans h₂) (D.moves_log hr.1) ?_
      intro hacc
      obtain ⟨τ₁, hy, hrel⟩ := (hf hacc).resolve_left no_escape
      rw [Action.bind_apply, Action.attempt_apply, hy]
      exact (next τ₁ hrel).follows
  | error e σ₁ =>
      rw [hx] at ha hf
      have hemit := D.reaches_emit i (.reported source text (.eval e)) ha.2
      have hr := ha.trans hemit
      have hle := D.moves_size hr.1
      have next := fun τ₁ hrel => hk (σ₁.emit (.reported source text (.eval e))) τ₁ hle
        ⟨hr.2, hrel, D.frame_mono hle h.here⟩
      obtain ⟨τ₀, hrel₀⟩ := P.exists_rel hr.2
      have hl := next τ₀ hrel₀
      have hstart : (x.attempt >>= f) σ = k (σ₁.emit (.reported source text (.eval e))) := by
        rw [Action.bind_apply, Action.attempt_apply, hx]
        simp only [herr]
        rfl
      refine .resume hstart hl.allows (fun σ₂ h₂ => hr.trans h₂) (D.moves_log hr.1) ?_
      intro hacc
      obtain ⟨hacc₁, htold⟩ := hacc.split (D.moves_log ha.1) (D.moves_log hemit.1)
      have haccepted := P.error_of_event htold.emitted
      obtain ⟨τ₁, hy, hrel⟩ := (hf hacc₁ haccepted).resolve_left no_escape
      rw [Action.bind_apply, Action.attempt_apply, hy]
      simp only [herr']
      exact (next _ (P.emit _ hrel)).follows

end Lockstep

end Pairing

end DualScope
