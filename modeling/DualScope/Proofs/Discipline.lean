import DualScope.Eval
import DualScope.Proofs.Closures

/-!
# What an evaluation keeps

A *discipline* is what one evaluation keeps, whatever it evaluates: an invariant of
the state, which frames things are evaluated in, what holds of the closures a program
can get hold of, and how the state may move while something is evaluated in a given
frame. Its laws are about single acts: something goes out, a name is bound, a frame
is made. That the evaluator as a whole keeps a discipline is shown once, for all of
them, in the modules that follow.

What is evaluated in a frame that was made meanwhile, the body of a call or of a
`let`, moves the state as the frame it is done for may, and so does a file that is
loaded, which runs in the global frame. These are the two laws that are not about
single acts.
-/

namespace DualScope

/-! ## What goes out between two states -/

/-- What went out after `σ` and until `σ'`, newest first. -/
def State.since (σ' σ : State) : List Event :=
  σ'.log.take (σ'.log.length - σ.log.length)

namespace State

variable {σ σ₁ σ₂ : State}

theorem since_eq {new : List Event} (h : σ₁.log = new ++ σ.log) : σ₁.since σ = new := by
  rw [since, h, List.length_append, Nat.add_sub_cancel, List.take_left']
  rfl

theorem since_trans (h₁ : σ.log <:+ σ₁.log) (h₂ : σ₁.log <:+ σ₂.log) :
    σ₂.since σ = σ₂.since σ₁ ++ σ₁.since σ := by
  obtain ⟨new₁, hnew₁⟩ := h₁
  obtain ⟨new₂, hnew₂⟩ := h₂
  have h : σ₂.log = (new₂ ++ new₁) ++ σ.log := by
    rw [← hnew₂, ← hnew₁, List.append_assoc]
  rw [since_eq h, since_eq hnew₁.symm, since_eq hnew₂.symm]

theorem mem_since_emit {e : Event} (h : (σ.emit e).log <:+ σ₁.log) : e ∈ σ₁.since σ := by
  have he : (σ.emit e).log = [e] ++ σ.log := rfl
  rw [since_trans ⟨[e], he.symm⟩ h, since_eq he]
  exact List.mem_append_right _ List.mem_cons_self

structure Grows (σ σ' : State) : Prop where
  size : σ.frames.size ≤ σ'.frames.size
  log : σ.log <:+ σ'.log

theorem Grows.refl (σ : State) : σ.Grows σ :=
  ⟨Nat.le_refl _, List.suffix_refl _⟩

theorem Grows.trans (h₁ : σ.Grows σ₁) (h₂ : σ₁.Grows σ₂) : σ.Grows σ₂ :=
  ⟨Nat.le_trans h₁.size h₂.size, h₁.log.trans h₂.log⟩

theorem grows_emit (σ : State) (e : Event) : σ.Grows (σ.emit e) :=
  ⟨Nat.le_refl _, List.suffix_cons _ _⟩

theorem grows_bind (σ : State) (i : FrameId) (name : String) (v : Value) :
    σ.Grows { σ with frames := σ.frames.bind i name v } :=
  ⟨Nat.le_of_eq (Frames.size_bind σ.frames i name v).symm, List.suffix_refl _⟩

theorem grows_push (σ : State) (f : Frame) : σ.Grows (σ.push f) := by
  refine ⟨?_, List.suffix_refl _⟩
  rw [push, Frames.size_push]
  exact Nat.le_succ _

end State

/-! ## The frame that ends a chain -/

namespace Frames

variable {fs : Frames}

theorem get?_isSome {i : FrameId} : (fs.get? i).isSome ↔ i < fs.size := by
  simp [get?, size]

theorem lt_size {i : FrameId} {f : Frame} (h : fs.get? i = some f) : i < fs.size :=
  get?_isSome.mp (congrArg Option.isSome h)

theorem chain_ne_nil {i : FrameId} {f : Frame} (h : fs.get? i = some f) : fs.chain i ≠ [] := by
  rw [chain.eq_def, h]
  simp only []
  split
  · exact List.cons_ne_nil _ _
  · split <;> exact List.cons_ne_nil _ _

theorem root_of_parent {i p : FrameId} {f : Frame} (h : fs.get? i = some f)
    (hp : f.parent = some p) (hlt : p < i) : fs.root i = fs.root p := by
  obtain ⟨g, hg⟩ : ∃ g, fs.get? p = some g :=
    Option.isSome_iff_exists.mp (get?_isSome.mpr (Nat.lt_trans hlt (lt_size h)))
  have hc : fs.chain i = i :: fs.chain p := by
    rw [chain.eq_def, h]
    simp only [hp, if_pos hlt]
  obtain ⟨j, js, hjs⟩ := List.exists_cons_of_ne_nil (chain_ne_nil hg)
  rw [root, root, hc, hjs, List.getLast?_cons_cons, List.getLast?_cons, Option.getD_some,
    Option.getD_some]

theorem root_of_not_lt {i : FrameId}
    (h : ∀ f p, fs.get? i = some f → f.parent = some p → ¬ p < i) : fs.root i = i := by
  rw [root, chain.eq_def]
  split
  · rfl
  · next f hf =>
      split
      · rfl
      · next p hp => rw [if_neg (h f p hf hp)]; rfl

/-- What holds of a frame and goes over to parents holds of the frame that ends its chain. -/
theorem root_induction {P : FrameId → Prop} {i : FrameId} (h : P i)
    (hp : ∀ j f p, P j → fs.get? j = some f → f.parent = some p → P p) : P (fs.root i) := by
  induction i using Nat.strongRecOn with
  | ind i ih =>
      by_cases hlt : ∃ f p, fs.get? i = some f ∧ f.parent = some p ∧ p < i
      · obtain ⟨f, p, hf, hfp, hlt⟩ := hlt
        rw [root_of_parent hf hfp hlt]
        exact ih p hlt (hp i f p h hf hfp)
      · rw [root_of_not_lt fun f p hf hfp hlt' => hlt ⟨f, p, hf, hfp, hlt'⟩]
        exact h

/-- A parent of the frame that ends a chain is no older than that frame. -/
theorem root_le_parent {i p : FrameId} {f : Frame} (h : fs.get? (fs.root i) = some f)
    (hp : f.parent = some p) : fs.root i ≤ p := by
  induction i using Nat.strongRecOn with
  | ind i ih =>
      by_cases hlt : ∃ f p, fs.get? i = some f ∧ f.parent = some p ∧ p < i
      · obtain ⟨g, q, hg, hgq, hlt⟩ := hlt
        rw [root_of_parent hg hgq hlt] at h ⊢
        exact ih q hlt h
      · rw [root_of_not_lt fun f p hf hfp hlt' => hlt ⟨f, p, hf, hfp, hlt'⟩] at h ⊢
        exact Nat.le_of_not_lt fun hlt' => hlt ⟨f, p, h, hp, hlt'⟩

end Frames

/-! ## Disciplines -/

/-- What one evaluation keeps. -/
structure Discipline where
  /-- What holds of every state. -/
  inv : State → Prop
  /-- The frames that something may be evaluated in, with so many frames made. -/
  frame : Nat → FrameId → Prop
  /-- What holds of each closure that a program can get hold of. -/
  closure : Nat → Value → Prop
  /-- What may become of a state while something is evaluated in the frame. -/
  moves : FrameId → State → State → Prop
  moves_refl : ∀ {i σ}, moves i σ σ
  moves_trans : ∀ {i σ₁ σ₂ σ₃}, moves i σ₁ σ₂ → moves i σ₂ σ₃ → moves i σ₁ σ₃
  /-- To go on in a frame that was made meanwhile is no other move. -/
  moves_inside : ∀ {i j σ₁ σ₂ σ₃},
    moves i σ₁ σ₂ → σ₁.frames.size ≤ j → moves j σ₂ σ₃ → moves i σ₁ σ₃
  /-- Nor is it to ask for a file and to run it in the global frame. -/
  moves_load : ∀ {i name σ σ'}, inv σ → frame σ.frames.size i →
    moves (σ.frames.root i) (σ.emit (.opened name)) σ' → moves i σ σ'
  moves_size : ∀ {i σ σ'}, moves i σ σ' → σ.frames.size ≤ σ'.frames.size
  moves_log : ∀ {i σ σ'}, moves i σ σ' → σ.log <:+ σ'.log
  frame_mono : ∀ {n m j}, n ≤ m → frame n j → frame m j
  /-- Frames that are made later do not make an old one fit. -/
  frame_old : ∀ {n m j}, n ≤ m → j < n → frame m j → frame n j
  frame_parent : ∀ {σ j f p}, inv σ → frame σ.frames.size j → σ.frames.get? j = some f →
    f.parent = some p → frame σ.frames.size p
  closure_mono : ∀ {n m v}, n ≤ m → closure n v → closure m v
  closure_home : ∀ {n id formals body home span},
    closure n (.lambda id formals body home span) → frame n home
  closure_lambda : ∀ {n id formals body i span}, frame n i →
    Form.checkFormals formals = .ok () → closure n (.lambda id formals body i span)
  closure_mu : ∀ {n id formals body span},
    Form.checkFormals formals = .ok () → closure n (.mu id formals body span)
  emit : ∀ {σ} i e, inv σ → inv (σ.emit e) ∧ moves i σ (σ.emit e)
  count : ∀ {σ} i made texts, inv σ →
    inv { σ with made := made, texts := texts } ∧
      moves i σ { σ with made := made, texts := texts }
  bind : ∀ {σ i} name v, inv σ → frame σ.frames.size i → v.Every (closure σ.frames.size) →
    inv { σ with frames := σ.frames.bind i name v } ∧
      moves i σ { σ with frames := σ.frames.bind i name v }
  push : ∀ {σ p} i bindings, inv σ → frame σ.frames.size p →
    (∀ b ∈ bindings, b.2.Every (closure σ.frames.size)) →
    inv (σ.push ⟨some p, bindings⟩) ∧ moves i σ (σ.push ⟨some p, bindings⟩) ∧
      frame (σ.frames.size + 1) σ.frames.size

namespace Discipline

variable (D : Discipline)

/-- Every closure in the value is as the discipline wants it. -/
def Fine (n : Nat) (v : Value) : Prop :=
  v.Every (D.closure n)

/-- A state of the discipline: also the values bound in its frames are fine. -/
structure Sound (σ : State) : Prop where
  inv : D.inv σ
  bound : ∀ j f, D.frame σ.frames.size j → σ.frames.get? j = some f →
    ∀ b ∈ f.bindings, D.Fine σ.frames.size b.2

/-- What an evaluation in frame `i` makes of a state. -/
def Reaches (i : FrameId) (σ σ' : State) : Prop :=
  D.moves i σ σ' ∧ D.Sound σ'

/-- What is left to do after a step in frame `i`: it is in this frame or in one of those
that were made since there were `n`. -/
def Leaves (i : FrameId) (n m : Nat) : Next → Prop
  | .done v => D.Fine m v
  | .eval e j => D.Fine m e ∧ D.frame m j ∧ (j = i ∨ n ≤ j)

/-- An ending that the discipline allows for what is done in frame `i`. -/
def Allows (i : FrameId) (σ : State) (post : Nat → α → Prop) : Ending α → Prop
  | .value a σ' => D.Reaches i σ σ' ∧ post σ'.frames.size a
  | .error _ σ' => D.Reaches i σ σ'
  | .cutShort => True

variable {D}

theorem Fine.mono {n m : Nat} {v : Value} (h : D.Fine n v) (hnm : n ≤ m) : D.Fine m v :=
  Value.Every.mono (fun _ => D.closure_mono hnm) h

theorem fine_mono {n m : Nat} {vs : List Value} (h : ∀ v ∈ vs, D.Fine n v) (hnm : n ≤ m) :
    ∀ v ∈ vs, D.Fine m v :=
  fun v hv => (h v hv).mono hnm

theorem fine_bindings_mono {n m : Nat} {bs : List (String × Value)}
    (h : ∀ b ∈ bs, D.Fine n b.2) (hnm : n ≤ m) : ∀ b ∈ bs, D.Fine m b.2 :=
  fun b hb => (h b hb).mono hnm

theorem Leaves.since {i : FrameId} {n n' m : Nat} {next : Next} (h : D.Leaves i n' m next)
    (hle : n ≤ n') : D.Leaves i n m next := by
  cases next with
  | done v => exact h
  | eval e j => exact ⟨h.1, h.2.1, h.2.2.imp_right (Nat.le_trans hle)⟩

theorem Leaves.inside {i j : FrameId} {n n' m : Nat} {next : Next} (h : D.Leaves j n' m next)
    (hj : n ≤ j) (hle : n ≤ n') : D.Leaves i n m next := by
  cases next with
  | done v => exact h
  | eval e k =>
      refine ⟨h.1, h.2.1, .inr ?_⟩
      rcases h.2.2 with rfl | hk
      · exact hj
      · exact Nat.le_trans hle hk

theorem frame_root {σ : State} {i : FrameId} (h : D.inv σ) (hi : D.frame σ.frames.size i) :
    D.frame σ.frames.size (σ.frames.root i) :=
  Frames.root_induction hi fun _ _ _ hj hf hp => D.frame_parent h hj hf hp

theorem Sound.lookup {σ : State} {i : FrameId} {name : String} {v : Value} (h : D.Sound σ)
    (hi : D.frame σ.frames.size i) (hv : σ.frames.lookup name i = some v) :
    D.Fine σ.frames.size v := by
  obtain ⟨j, f, b, hj, hf, hb, rfl⟩ := Frames.lookup_induction (P := D.frame σ.frames.size) hi
    (fun _ _ _ hj hf hp => D.frame_parent h.inv hj hf hp) hv
  exact h.bound j f hj hf b hb

/-! ## Acts that keep a discipline -/

theorem reaches_refl {σ : State} (i : FrameId) (h : D.Sound σ) : D.Reaches i σ σ :=
  ⟨D.moves_refl, h⟩

theorem Reaches.trans {i : FrameId} {σ₁ σ₂ σ₃ : State} (h₁ : D.Reaches i σ₁ σ₂)
    (h₂ : D.Reaches i σ₂ σ₃) : D.Reaches i σ₁ σ₃ :=
  ⟨D.moves_trans h₁.1 h₂.1, h₂.2⟩

theorem Allows.of_begun {i j : FrameId} {σ σ₁ : State} {post : Nat → α → Prop} {r : Ending α}
    (h : D.Allows j σ₁ post r) (hr : ∀ σ₂, D.Reaches j σ₁ σ₂ → D.Reaches i σ σ₂) :
    D.Allows i σ post r := by
  cases r with
  | value a σ₂ => exact ⟨hr σ₂ h.1, h.2⟩
  | error e σ₂ => exact hr σ₂ h
  | cutShort => trivial

theorem Allows.attempt {i : FrameId} {σ : State} {post : Nat → α → Prop} {x : Action α}
    (h : D.Allows i σ post (x σ)) :
    D.Allows i σ (fun n r => ∀ a, r = .ok a → post n a) (x.attempt σ) := by
  rw [Action.attempt_apply]
  cases hx : x σ with
  | value a σ₁ =>
      rw [hx] at h
      refine ⟨h.1, fun b hb => ?_⟩
      cases hb
      exact h.2
  | error e σ₁ =>
      rw [hx] at h
      exact ⟨h, fun b hb => by cases hb⟩
  | cutShort => trivial

theorem reaches_emit {σ : State} (i : FrameId) (e : Event) (h : D.Sound σ) :
    D.Reaches i σ (σ.emit e) :=
  have he := D.emit i e h.inv
  ⟨he.2, he.1, h.bound⟩

theorem reaches_count {σ : State} (i : FrameId) (made texts : Nat) (h : D.Sound σ) :
    D.Reaches i σ { σ with made := made, texts := texts } :=
  have hc := D.count i made texts h.inv
  ⟨hc.2, hc.1, h.bound⟩

theorem reaches_bind {σ : State} {i : FrameId} (name : String) {v : Value} (h : D.Sound σ)
    (hi : D.frame σ.frames.size i) (hv : D.Fine σ.frames.size v) :
    D.Reaches i σ { σ with frames := σ.frames.bind i name v } := by
  have hb := D.bind name v h.inv hi hv
  refine ⟨hb.2, hb.1, ?_⟩
  intro j f hj hf b hbf
  simp only [Frames.size_bind] at hj ⊢
  rw [Frames.get?_bind] at hf
  split at hf
  · obtain ⟨g, hg, rfl⟩ := Option.map_eq_some_iff.mp hf
    exact Frame.forall_insert name hv (h.bound j g hj hg) b hbf
  · exact h.bound j f hj hf b hbf

theorem reaches_push {σ : State} {p : FrameId} {bindings : List (String × Value)} (i : FrameId)
    (h : D.Sound σ) (hp : D.frame σ.frames.size p)
    (hb : ∀ b ∈ bindings, D.Fine σ.frames.size b.2) :
    D.Reaches i σ (σ.push ⟨some p, bindings⟩) := by
  have hpush := D.push i bindings h.inv hp hb
  refine ⟨hpush.2.1, hpush.1, ?_⟩
  intro j f hj hf b hbf
  have hle : σ.frames.size ≤ σ.frames.size + 1 := Nat.le_succ _
  simp only [State.push, Frames.size_push] at hj ⊢
  rw [State.push, Frames.get?_push] at hf
  split at hf
  · cases hf
    exact (hb b hbf).mono hle
  · exact (h.bound j f (D.frame_old hle (Frames.lt_size hf) hj) hf b hbf).mono hle

end Discipline

end DualScope
