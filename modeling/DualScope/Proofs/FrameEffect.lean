import DualScope.Proofs.Proceeding
import DualScope.Proofs.Reachable

/-!
# What an evaluation does to the frames

An evaluation binds names in the frame it is done in and in frames that it makes
itself. Of the frames that were there before, it may change that one, and by a `load`
the global one at the end of its chain, and no other. So when the body of a call or of
a `let` is through, its frame is settled: whatever is evaluated afterwards is evaluated
somewhere else.

The discipline looks at one frame at a time. A step of the evaluator that goes on in a
new frame does not go on in the one that is looked at, since that one is old; and a
global frame that a `load` finds is the one that is looked at only if it has no parent.
The latter is where it matters that parents are older than their children.

What comes behind an evaluation is what is left of the steps that were under way when it
began. They proceed in frames that were there then, and so in none that it has made.
-/

namespace DualScope

namespace Frame

theorem names_subset_bind (f : Frame) (name : String) (v : Value) :
    f.names ⊆ (f.bind name v).names := by
  have key : ∀ bs : List (String × Value), bs.map Prod.fst ⊆ (insert name v bs).map Prod.fst := by
    intro bs
    induction bs with
    | nil => exact List.nil_subset _
    | cons b bs ih =>
        obtain ⟨n, w⟩ := b
        rw [insert]
        split
        · exact List.Subset.refl _
        · exact List.cons_subset_cons n ih
  exact key f.bindings

end Frame

/-- What may become of frame `F`, which was `f` and then is `f'`, while something is
evaluated in frame `E`. -/
structure FrameKept (E F : FrameId) (σ σ' : State) (f f' : Frame) : Prop where
  parent : f'.parent = f.parent
  names : f.names ⊆ f'.names
  enclosed : F ≠ E → f.parent ≠ none → f'.bindings = f.bindings
  global : F ≠ E → f.parent = none → (∀ e ∈ σ'.since σ, e.isRequest = false) →
    f'.bindings = f.bindings

def FrameEffect (E : FrameId) (σ σ' : State) : Prop :=
  ∀ F f, σ.frames.get? F = some f → ∃ f', σ'.frames.get? F = some f' ∧ FrameKept E F σ σ' f f'

namespace FrameKept

variable {E E' F : FrameId} {σ σ₁ σ₂ : State} {f f₁ f₂ : Frame}

theorem refl (E F : FrameId) (σ σ' : State) (f : Frame) : FrameKept E F σ σ' f f :=
  ⟨rfl, List.Subset.refl _, fun _ _ => rfl, fun _ _ _ => rfl⟩

/-- The frame that things go on in may be another one, if it is not the one looked at. -/
theorem trans (hE : F ≠ E → F ≠ E') (hlog₁ : σ.log <:+ σ₁.log) (hlog₂ : σ₁.log <:+ σ₂.log)
    (h₁ : FrameKept E F σ σ₁ f f₁) (h₂ : FrameKept E' F σ₁ σ₂ f₁ f₂) :
    FrameKept E F σ σ₂ f f₂ where
  parent := h₂.parent.trans h₁.parent
  names := List.Subset.trans h₁.names h₂.names
  enclosed hF hp := by
    have hp₁ : f₁.parent ≠ none := by rw [h₁.parent]; exact hp
    rw [h₂.enclosed (hE hF) hp₁, h₁.enclosed hF hp]
  global hF hp hreq := by
    have hp₁ : f₁.parent = none := by rw [h₁.parent]; exact hp
    rw [State.since_trans hlog₁ hlog₂] at hreq
    rw [h₂.global (hE hF) hp₁ fun e he => hreq e (List.mem_append_left _ he),
      h₁.global hF hp fun e he => hreq e (List.mem_append_right _ he)]

end FrameKept

/-! ## One frame -/

/-- Frame `F` is there, and its parent is older. -/
def State.Placed (F : FrameId) (σ : State) : Prop :=
  ∃ f, σ.frames.get? F = some f ∧ ∀ p, f.parent = some p → p < F

/-- A frame with a parent ends no chain. -/
theorem State.Placed.root_ne {F i : FrameId} {σ : State} {f : Frame} (h : σ.Placed F)
    (hf : σ.frames.get? F = some f) (hp : f.parent ≠ none) : σ.frames.root i ≠ F := by
  rintro rfl
  obtain ⟨p, hp⟩ := Option.ne_none_iff_exists'.mp hp
  obtain ⟨g, hg, hold⟩ := h
  cases hf.symm.trans hg
  exact Nat.not_lt_of_le (Frames.root_le_parent hf hp) (hold p hp)

/-- The move of a state during which frame `F` is kept. -/
structure State.Keeping (F E : FrameId) (σ σ' : State) : Prop where
  grows : σ.Grows σ'
  kept : ∀ f, σ.frames.get? F = some f →
    ∃ f', σ'.frames.get? F = some f' ∧ FrameKept E F σ σ' f f'

namespace State.Keeping

variable {E E' F : FrameId} {σ σ₁ σ₂ : State}

theorem refl (E F : FrameId) (σ : State) : σ.Keeping F E σ :=
  ⟨.refl σ, fun f hf => ⟨f, hf, .refl E F σ σ f⟩⟩

theorem of_frames (hgrows : σ.Grows σ₁) (h : σ₁.frames.get? F = σ.frames.get? F) :
    σ.Keeping F E σ₁ :=
  ⟨hgrows, fun f hf => ⟨f, h.trans hf, .refl E F σ σ₁ f⟩⟩

theorem trans (h₁ : σ.Keeping F E σ₁) (h₂ : σ₁.Keeping F E' σ₂)
    (hE : (σ.frames.get? F).isSome → F ≠ E → F ≠ E') : σ.Keeping F E σ₂ := by
  refine ⟨h₁.grows.trans h₂.grows, fun f hf => ?_⟩
  obtain ⟨f₁, hf₁, hk₁⟩ := h₁.kept f hf
  obtain ⟨f₂, hf₂, hk₂⟩ := h₂.kept f₁ hf₁
  have hE' := hE (by rw [hf]; rfl)
  exact ⟨f₂, hf₂, hk₁.trans hE' h₁.grows.log h₂.grows.log hk₂⟩

theorem load {i : FrameId} {name : String} (hF : σ.Placed F)
    (h : (σ.emit (.opened name)).Keeping F (σ.frames.root i) σ₁) : σ.Keeping F i σ₁ := by
  refine ⟨(grows_emit σ _).trans h.grows, fun f hf => ?_⟩
  obtain ⟨f', hf', hk⟩ := h.kept f hf
  refine ⟨f', hf', hk.parent, hk.names, fun _ hp => hk.enclosed (hF.root_ne hf hp).symm hp, ?_⟩
  intro _ _ hreq
  exact absurd (hreq _ (mem_since_emit h.grows.log)) Bool.noConfusion

theorem bind (F E : FrameId) (σ : State) (name : String) (v : Value) :
    σ.Keeping F E { σ with frames := σ.frames.bind E name v } := by
  by_cases hE : E = F
  · refine ⟨grows_bind σ E name v, fun f hf => ⟨f.bind name v, ?_, rfl,
      f.names_subset_bind name v, fun hF => absurd hE.symm hF, fun hF => absurd hE.symm hF⟩⟩
    rw [Frames.get?_bind, if_pos hE, hf]
    rfl
  · refine of_frames (grows_bind σ E name v) ?_
    rw [Frames.get?_bind, if_neg hE]

theorem push (F E : FrameId) (σ : State) (f : Frame) : σ.Keeping F E (σ.push f) := by
  refine ⟨grows_push σ f, fun g hg => ⟨g, ?_, .refl E F _ _ g⟩⟩
  have hlt : F < σ.frames.size := Frames.lt_size hg
  rw [State.push, Frames.get?_push, if_neg (Nat.ne_of_lt hlt), hg]

end State.Keeping

theorem State.Placed.kept {E F : FrameId} {σ σ₁ : State} (h : σ.Placed F)
    (hk : σ.Keeping F E σ₁) : σ₁.Placed F := by
  obtain ⟨f, hf, hp⟩ := h
  obtain ⟨f', hf', hkept⟩ := hk.kept f hf
  refine ⟨f', hf', ?_⟩
  rw [hkept.parent]
  exact hp

theorem State.Reachable.placed {F : FrameId} {σ : State} {f : Frame} (h : σ.Reachable)
    (hf : σ.frames.get? F = some f) : σ.Placed F :=
  ⟨f, hf, fun _ hp => h.parent_lt hf hp⟩

/-- Frame `F` is kept, whatever is evaluated in whatever frame. -/
def Discipline.keeping (F : FrameId) : Discipline where
  inv := State.Placed F
  frame _ _ := True
  closure _ _ := True
  moves := State.Keeping F
  moves_refl := .refl _ _ _
  moves_trans h₁ h₂ := h₁.trans h₂ fun _ h => h
  moves_inside h₁ hj h₂ := by
    refine h₁.trans h₂ ?_
    intro hF _
    exact Nat.ne_of_lt (Nat.lt_of_lt_of_le (Frames.get?_isSome.mp hF) hj)
  moves_load hF _ h := .load hF h
  moves_size h := h.grows.size
  moves_log h := h.grows.log
  frame_mono _ h := h
  frame_old _ _ h := h
  frame_parent _ _ _ _ := trivial
  closure_mono _ h := h
  closure_home _ := trivial
  closure_lambda _ _ := trivial
  closure_mu _ := trivial
  emit _ e h := ⟨h, .of_frames (State.grows_emit _ e) rfl⟩
  count _ _ _ h := ⟨h, .of_frames ⟨Nat.le_refl _, List.suffix_refl _⟩ rfl⟩
  bind name v h _ _ := ⟨h.kept (.bind F _ _ name v), .bind F _ _ name v⟩
  push i _ h _ _ := ⟨h.kept (.push F i _ _), .push F i _ _, trivial⟩

theorem State.Placed.sound {F : FrameId} {σ : State} (h : σ.Placed F) :
    (Discipline.keeping F).Sound σ :=
  ⟨h, fun _ _ _ _ b _ => Value.every_of_all (fun _ => trivial) b.2⟩

/-! ## All frames -/

theorem Eval.Ends.keeping {s : Settings} {level : Nat} {e : Value} {E F : FrameId}
    {σ σ' : State} {r : Ending Value} (hend : Ends s level e E σ r)
    (hσ' : r.state? = some σ') (h : σ.Placed F) : σ.Keeping F E σ' := by
  have he : (Discipline.keeping F).Fine σ.frames.size e := Value.every_of_all (fun _ => trivial) e
  exact ((Discipline.ends_allows h.sound trivial he hend).reaches hσ').1

/-- What may come when nothing more is evaluated in frame `F`: evaluations in other frames,
with whatever settings and however they end, and what an evaluation that is under way in
another frame does besides. -/
inductive State.Later (F : FrameId) : State → State → Prop
  | refl (σ : State) : Later F σ σ
  | evaluated {s : Settings} {level : Nat} {e : Value} {E : FrameId} {σ σ₁ σ₂ : State}
    {r : Ending Value} : Later F σ σ₁ → E ≠ F → Eval.Ends s level e E σ₁ r →
      r.state? = some σ₂ → Later F σ σ₂
  | bound (name : String) (v : Value) {E : FrameId} {σ σ₁ : State} : Later F σ σ₁ → E ≠ F →
    Later F σ { σ₁ with frames := σ₁.frames.bind E name v }
  | pushed (f : Frame) {σ σ₁ : State} : Later F σ σ₁ → Later F σ (σ₁.push f)
  | emitted (e : Event) {σ σ₁ : State} : Later F σ σ₁ → Later F σ (σ₁.emit e)
  | counted (made texts : Nat) {σ σ₁ : State} : Later F σ σ₁ →
    Later F σ { σ₁ with made := made, texts := texts }

theorem State.Keeping.settled {E F : FrameId} {σ σ' : State} {f : Frame}
    (h : σ.Keeping F E σ') (hE : E ≠ F) (hf : σ.frames.get? F = some f) (hp : f.parent ≠ none) :
    σ'.frames.get? F = some f := by
  obtain ⟨f', hf', hkept⟩ := h.kept f hf
  have hbindings := hkept.enclosed (Ne.symm hE) hp
  have hparent := hkept.parent
  obtain ⟨parent, bindings⟩ := f
  obtain ⟨parent', bindings'⟩ := f'
  cases hparent
  cases hbindings
  exact hf'

theorem State.Later.settled {F : FrameId} {σ σ' : State} {f : Frame} (h : σ.Later F σ')
    (hF : σ.Placed F) (hf : σ.frames.get? F = some f) (hp : f.parent ≠ none) :
    σ'.Placed F ∧ σ'.frames.get? F = some f := by
  induction h with
  | refl σ => exact ⟨hF, hf⟩
  | evaluated _ hE hend hσ₂ ih =>
      obtain ⟨hplaced, hf₁⟩ := ih hF hf
      have hk := hend.keeping hσ₂ hplaced
      exact ⟨hplaced.kept hk, hk.settled hE hf₁ hp⟩
  | @bound name v E σ σ₁ _ hE ih =>
      obtain ⟨hplaced, hf₁⟩ := ih hF hf
      have hk := Keeping.bind F E σ₁ name v
      exact ⟨hplaced.kept hk, hk.settled hE hf₁ hp⟩
  | @pushed g σ σ₁ _ ih =>
      obtain ⟨hplaced, hf₁⟩ := ih hF hf
      have hk := Keeping.push F (F + 1) σ₁ g
      exact ⟨hplaced.kept hk, hk.settled (Nat.succ_ne_self F) hf₁ hp⟩
  | emitted e _ ih => exact ih hF hf
  | counted made texts _ ih => exact ih hF hf

/-! ## What is left of a step -/

/-- Nothing was evaluated in frame `F` until the ending, nor is this left to be done. -/
def Ending.Later (F : FrameId) (σ : State) : Ending Next → Prop
  | .value next σ' => σ.Later F σ' ∧ ∀ e j, next = .eval e j → j ≠ F
  | .error _ σ' => σ.Later F σ'
  | .cutShort => True

/-- What proceeds in one frame evaluates nothing in another that has a parent and was there. -/
theorem Eval.Proceeds.later {s : Settings} {budget level : Nat} {E F : FrameId} {x : Action Next}
    (h : Proceeds (nested s budget level) E x) {σ σ₁ : State} {f : Frame} (hF : σ.Placed F)
    (hf : σ.frames.get? F = some f) (hp : f.parent ≠ none) (hE : E ≠ F) (hσ : σ.Later F σ₁) :
    (x σ₁).Later F σ := by
  induction h generalizing σ₁ with
  | done v => exact ⟨hσ, nofun⟩
  | tail e =>
      refine ⟨hσ, fun e' j hj => ?_⟩
      cases hj
      exact hE
  | fail err => exact hσ
  | @attempt i e k _ ih =>
      rw [Action.bind_apply, Action.attempt_apply]
      cases hr : nested s budget level e i σ₁ with
      | value v σ₂ =>
          have hend : Ends s level e i σ₁ (.value v σ₂) := ⟨nofun, budget, hr⟩
          exact ih _ hE (.evaluated hσ hE hend rfl)
      | error err σ₂ =>
          have hend : Ends s level e i σ₁ (.error err σ₂) := ⟨nofun, budget, hr⟩
          exact ih _ hE (.evaluated hσ hE hend rfl)
      | cutShort => trivial
  | look g _ ih => exact ih _ hE hσ
  | bind name v _ ih => exact ih hE (.bound name v hσ hE)
  | emit e _ ih => exact ih hE (.emitted e hσ)
  | count made texts _ ih => exact ih hE (.counted _ _ hσ)
  | frame g _ ih =>
      -- The frame that is made is none of those that were there.
      have hnew : σ₁.frames.size ≠ F :=
        Nat.ne_of_gt (Frames.lt_size (hσ.settled hF hf hp).2)
      exact ih _ hnew (.pushed g hσ)
  | root _ ih =>
      obtain ⟨hF₁, hf₁⟩ := hσ.settled hF hf hp
      exact ih _ (hF₁.root_ne hf₁ hp) hσ

/-- What is left of an evaluation, behind one that it has asked for, is done: the rest of the
step in the frame that the step is done in, one of the first `n`, and then what it leaves. -/
def State.Resumes (n : Nat) (σ σ' : State) : Prop :=
  ∃ s budget level E x, level < s.limit ∧ E < n ∧
    Eval.Proceeds (Eval.nested s budget (level + 1)) E x ∧
    ((x >>= Next.conclude (Eval.onward s budget (level + 1))) σ).state? = some σ'

theorem Eval.exists_ends_of_onward {s : Settings} {budget level : Nat} {e : Value} {j : FrameId}
    {σ σ' : State} (hlevel : level < s.limit)
    (h : (onward s budget (level + 1) e j σ).state? = some σ') :
    ∃ l r, Ends s l e j σ r ∧ r.state? = some σ' := by
  have hended : onward s budget (level + 1) e j σ ≠ .cutShort := by
    intro hcut
    rw [hcut] at h
    cases h
  unfold onward at h hended
  cases hs : s.strategy with
  | tailCall =>
      simp only [hs] at h hended
      exact ⟨level, _, ⟨hended, budget, by rw [nested_of_lt hlevel]⟩, h⟩
  | recursive =>
      simp only [hs] at h hended
      exact ⟨level + 1, _, ⟨hended, budget, rfl⟩, h⟩

theorem State.Resumes.later {n : Nat} {F : FrameId} {σ σ₁ σ' : State} {f : Frame}
    (h : σ₁.Resumes n σ') (hn : n ≤ F) (hF : σ.Placed F) (hf : σ.frames.get? F = some f)
    (hp : f.parent ≠ none) (hσ : σ.Later F σ₁) : σ.Later F σ' := by
  obtain ⟨s, budget, level, E, x, hlevel, hE, hx, hσ'⟩ := h
  have hlater := hx.later hF hf hp (Nat.ne_of_lt (Nat.lt_of_lt_of_le hE hn)) hσ
  rw [Action.bind_apply] at hσ'
  generalize x σ₁ = r at hlater hσ'
  cases r with
  | value next σ₂ =>
      obtain ⟨hlater, hplace⟩ := hlater
      cases next with
      | done v =>
          cases hσ'
          exact hlater
      | eval e j =>
          obtain ⟨l, r, hend, hr⟩ := Eval.exists_ends_of_onward hlevel hσ'
          exact .evaluated hlater (hplace e j rfl) hend hr
  | error err σ₂ =>
      cases hσ'
      exact hlater
  | cutShort => cases hσ'

/-- From a reachable state on, an evaluation has no effect on the frames that were there but
for what `FrameEffect` allows. And a frame with a parent, such as that of a call or of a
`let`, stays as it is when its body is through: what is evaluated later changes nothing in
it, and what is left of the evaluations that were under way before it was made is such. -/
theorem evaluation_frame_effect {σ : State} (h : σ.Reachable) :
    (∀ s level e E r σ', Eval.Ends s level e E σ r → r.state? = some σ' → FrameEffect E σ σ') ∧
      (∀ F f σ', σ.frames.get? F = some f → f.parent ≠ none → σ.Later F σ' →
        σ'.frames.get? F = some f) ∧
      (∀ eval e E, Eval.Proceeds eval E (Eval.step eval e E)) ∧
      ∀ s level e E r σ₁, E < σ.frames.size → e.Within σ.frames.size →
        Eval.Ends s level e E σ r → r.state? = some σ₁ →
          ∀ F f, σ.frames.size ≤ F → σ₁.frames.get? F = some f → f.parent ≠ none →
            ∀ σ₂ σ₃, σ₁.Later F σ₂ → σ₂.Resumes σ.frames.size σ₃ → σ₁.Later F σ₃ := by
  refine ⟨?_, ?_, Eval.step_proceeds, ?_⟩
  · intro s level e E r σ' hend hσ' F f hf
    exact (hend.keeping hσ' (h.placed hf)).kept f hf
  · intro F f σ' hf hp hlater
    exact (hlater.settled (h.placed hf) hf hp).2
  · intro s level e E r σ₁ hE he hend hσ₁ F f hF hf hp σ₂ σ₃ hlater hresumes
    have h₁ : σ₁.Reachable := h.ends hE he hend hσ₁
    exact hresumes.later hF (h₁.placed hf) hf hp hlater

section

/-- A global frame that binds `x`, and one below it that binds `y`. -/
def twoFrames : State :=
  ((State.initial fun _ => .error .notFound).push ⟨none, [("x", .nil .none)]⟩).push
    ⟨some 0, [("y", .nil .none)]⟩

/-- `(define x #t)` -/
def defineX : Value :=
  .ofList [.symbol "define" .none, .symbol "x" .none, .boolean true .none]

def afterDefine (E : FrameId) : State :=
  { twoFrames with frames := twoFrames.frames.bind E "x" (.boolean true .none) }

theorem twoFrames_reachable : twoFrames.Reachable := by
  refine .push (.push (.initial _) ?_ ?_) ?_ ?_
  · exact fun p hp => by cases hp
  · exact List.forall_mem_singleton.mpr trivial
  · intro p hp
    cases hp
    exact Nat.zero_lt_one
  · exact List.forall_mem_singleton.mpr trivial

theorem defineX_ends_above : Eval.Ends ⟨.tailCall, 2⟩ 0 defineX 0 twoFrames
    (.value (.symbol "x" .none) (afterDefine 0)) :=
  ⟨by simp, 2, rfl⟩

theorem defineX_ends_below : Eval.Ends ⟨.recursive, 2⟩ 0 defineX 1 twoFrames
    (.value (.symbol "x" .none) (afterDefine 1)) :=
  ⟨by simp, 2, rfl⟩

/-- `(let ((z #t)) #t)` -/
def letZ : Value :=
  .ofList [.symbol "let" .none,
    .ofList [.ofList [.symbol "z" .none, .boolean true .none]], .boolean true .none]

def afterLet : State :=
  twoFrames.push ⟨some 1, [("z", .boolean true .none)]⟩

def afterBoth : State :=
  { afterLet with frames := afterLet.frames.bind 1 "x" (.boolean true .none) }

theorem letZ_ends : Eval.Ends ⟨.tailCall, 3⟩ 1 letZ 1 twoFrames
    (.value (.boolean true .none) afterLet) :=
  ⟨by simp, 3, rfl⟩

/-- What is left of `(begin (let ((z #t)) #t) (define x #t))` behind the `let`. -/
theorem afterLet_resumes : afterLet.Resumes 2 afterBoth :=
  ⟨⟨.tailCall, 3⟩, 3, 0, 1,
    Form.sequence (Eval.nested ⟨.tailCall, 3⟩ 3 1) 1 (.boolean true .none) [defineX] >>=
      fun v => pure (.done v),
    by decide, by decide, .sequence .done _ _, rfl⟩

theorem evaluation_frame_effect_defineX : FrameEffect 1 twoFrames (afterDefine 1) ∧
    (afterDefine 0).frames.get? 1 = some ⟨some 0, [("y", .nil .none)]⟩ ∧
    State.Later 2 afterLet afterBoth := by
  have h := evaluation_frame_effect twoFrames_reachable
  refine ⟨?_, ?_, ?_⟩
  · exact h.1 _ 0 defineX 1 _ _ defineX_ends_below rfl
  · refine h.2.1 1 _ _ rfl (by simp) (.evaluated (.refl _) ?_ defineX_ends_above rfl)
    exact Nat.zero_ne_one
  · have hletZ : letZ.Within 2 := by
      simp [letZ, Value.ofList, Value.Within, Value.Every]
    exact h.2.2.2 _ 1 letZ 1 _ afterLet (by decide) hletZ letZ_ends rfl 2
      ⟨some 1, [("z", .boolean true .none)]⟩ (Nat.le_refl 2) rfl (by simp) _ _ (.refl _)
      afterLet_resumes

end

end DualScope
