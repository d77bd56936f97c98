import DualScope.Proofs.Likeness.Evaluator
import DualScope.Proofs.Depth

/-!
# Names that are not mentioned

A name that occurs nowhere might as well not be bound. If it is not in an expression, nor in the
values that other names are bound to, nor in any file, then the expression is evaluated in the
same way whatever the name is bound to, and where, and these bindings are left as they are.

This is the case of values that are alike in which everything stands for itself, and all names
but the one may occur. That it may not be looked up is clear from the expression; that nothing
ever brings it up has to hold of the values that are computed on the way as well, for these may
be evaluated in their turn. So it is part of what is alike, and all that evaluation adds by
itself is the names of two forms. What is added here is that the name is never bound.
-/

namespace DualScope

/-! ## What does not mention a name -/

/-- The name is no symbol in the value, at any depth, the formals and bodies of closures
included. -/
def Value.Lacks (y : String) (v : Value) : Prop :=
  v.Throughout (· ≠ y) fun _ => True

/-- The name is no token of any file. -/
def Files.Lack (y : String) (files : Files) : Prop :=
  ∀ name text ts, files name = .ok text → tokenize text = .ok ts → ∀ t ∈ ts, t.kind ≠ .symbol y

/-- No value that another name is bound to mentions the name. -/
def Frames.LackElsewhere (y : String) (fs : Frames) : Prop :=
  ∀ i f n v, fs.get? i = some f → n ≠ y → f.find? n = some v → v.Lacks y

/-! ## Bindings of one name -/

/-- What the name is bound to in the frame itself. -/
def Frames.binding (fs : Frames) (y : String) (i : FrameId) : Option Value :=
  (fs.get? i).bind (·.find? y)

/-- The same parent, and the same bindings of all other names. -/
structure Frame.DifferOnly (y : String) (f g : Frame) : Prop where
  parent : g.parent = f.parent
  find : ∀ n, n ≠ y → g.find? n = f.find? n

/-- The states are the same but for the bindings of the name. -/
structure State.DifferOnly (y : String) (σ τ : State) : Prop where
  frames : ∀ i, Option.Rel (Frame.DifferOnly y) (σ.frames.get? i) (τ.frames.get? i)
  made : τ.made = σ.made
  texts : τ.texts = σ.texts
  files : τ.files = σ.files
  log : τ.log = σ.log

/-- The same outcome, in states that are the same but for the bindings of the name. -/
inductive Ending.DifferOnly (y : String) : Ending α → Ending α → Prop
  | value (a : α) {σ τ : State} : σ.DifferOnly y τ → DifferOnly y (.value a σ) (.value a τ)
  | error (e : EvalError) {σ τ : State} : σ.DifferOnly y τ →
    DifferOnly y (.error e σ) (.error e τ)

/-- The name is bound in the same frames, and to the same values. -/
def State.Spares (y : String) (σ σ' : State) : Prop :=
  ∀ i, σ'.frames.binding y i = σ.frames.binding y i

/-- Wherever the action, begun in `σ`, came to an end, it left the bindings of the name. -/
def Ending.Spares (y : String) (σ : State) (r : Ending α) : Prop :=
  ∀ σ', r.state? = some σ' → σ.Spares y σ'

theorem State.Spares.refl (y : String) (σ : State) : σ.Spares y σ :=
  fun _ => rfl

theorem State.Spares.trans {y : String} {σ σ₁ σ₂ : State} (h₁ : σ.Spares y σ₁)
    (h₂ : σ₁.Spares y σ₂) : σ.Spares y σ₂ :=
  fun i => (h₂ i).trans (h₁ i)

theorem Ending.Spares.earlier {y : String} {σ σ₁ : State} {r : Ending α} (h : σ.Spares y σ₁)
    (hr : r.Spares y σ₁) : r.Spares y σ :=
  fun σ' hσ' => h.trans (hr σ' hσ')

theorem State.spares_bind {y n : String} (h : n ≠ y) (σ : State) (i : FrameId) (v : Value) :
    σ.Spares y { σ with frames := σ.frames.bind i n v } := by
  intro j
  rw [Frames.binding, Frames.binding, Frames.get?_bind]
  split
  · cases σ.frames.get? j with
    | none => rfl
    | some f => exact (Frame.find?_bind f n y v).trans (if_neg (Ne.symm h))
  · rfl

theorem State.spares_push {y : String} {bs : List (String × Value)} (h : ∀ b ∈ bs, b.1 ≠ y)
    (σ : State) (parent : Option FrameId) : σ.Spares y (σ.push ⟨parent, bs⟩) := by
  intro j
  rw [Frames.binding, Frames.binding, State.push, Frames.get?_push]
  split
  · next hj =>
      have hold : σ.frames.get? j = none := by
        rw [hj]
        exact Option.not_isSome_iff_eq_none.mp (mt Frames.get?_isSome.mp (Nat.lt_irrefl _))
      rw [hold]
      exact List.lookup_eq_none_iff.mpr fun b hb => bne_iff_ne.mpr (Ne.symm (h b hb))
  · rfl

/-! ## The accord -/

/-- Everything stands for itself, and every name may occur but the one, which is no form's. -/
def Likeness.without {y : String} (hy : Form.ofName? y = none) (log : List Event) : Likeness :=
  .inPlace .same (· ≠ y) (by rintro rfl; cases hy) (by rintro rfl; cases hy) log

section

variable {L : Likeness} {y : String}

/-- From states that are alike the actions come to ends that are alike, and neither binds the
name. -/
def Action.LikeSparing (L : Likeness) (y : String) (P : α → β → Prop) (x : Action α)
    (x' : Action β) : Prop :=
  ∀ σ τ, σ.Like L τ → (x σ).Like L P (x' τ) ∧ (x σ).Spares y σ ∧ (x' τ).Spares y τ

namespace Action.LikeSparing

variable {P : α → β → Prop} {Q : γ → δ → Prop}

/-- Of actions that are alike it remains to be shown that they do not bind the name. -/
theorem of_like {x : Action α} {x' : Action β} (h : x.Like L P x')
    (hx : ∀ σ σ', (x σ).state? = some σ' → σ.Spares y σ')
    (hx' : ∀ σ σ', (x' σ).state? = some σ' → σ.Spares y σ') : x.LikeSparing L y P x' :=
  fun σ τ hστ => ⟨h σ τ hστ, hx σ, hx' τ⟩

theorem bind {x : Action α} {x' : Action β} {f : α → Action γ} {g : β → Action δ}
    (h : x.LikeSparing L y P x') (hfg : ∀ a b, P a b → (f a).LikeSparing L y Q (g b)) :
    (x >>= f).LikeSparing L y Q (x' >>= g) := by
  intro σ τ hστ
  obtain ⟨hlike, hx, hx'⟩ := h σ τ hστ
  rw [bind_apply, bind_apply]
  generalize x σ = r at hlike hx ⊢
  generalize x' τ = r' at hlike hx' ⊢
  cases hlike with
  | value hab hστ =>
      obtain ⟨hlike, hf, hg⟩ := hfg _ _ hab _ _ hστ
      exact ⟨hlike, hf.earlier (hx _ rfl), hg.earlier (hx' _ rfl)⟩
  | error he hστ => exact ⟨.error he hστ, fun _ h => hx _ h, fun _ h => hx' _ h⟩
  | cutShort => exact ⟨.cutShort, nofun, nofun⟩

theorem reported {x : Action α} {x' : Action β} (source text : String)
    (h : x.LikeSparing L y P x') :
    (x.reported source text).LikeSparing L y (Option.Rel P) (x'.reported source text) := by
  intro σ τ hστ
  obtain ⟨hlike, hx, hx'⟩ := h σ τ hστ
  unfold Action.reported
  generalize x σ = r at hlike hx ⊢
  generalize x' τ = r' at hlike hx' ⊢
  cases hlike with
  | value hab hστ => exact ⟨.value (.some hab) hστ, fun _ h => hx _ h, fun _ h => hx' _ h⟩
  | @error e e' σ₁ τ₁ he hστ =>
      refine ⟨.value .none (hστ.emit (.reported source text (.eval he))), ?_, ?_⟩
      · rintro _ ⟨⟩
        exact hx σ₁ rfl
      · rintro _ ⟨⟩
        exact hx' τ₁ rfl
  | cutShort => exact ⟨.cutShort, nofun, nofun⟩

/-- Acts that leave the frames alone. -/
theorem of_still {f : State → α} {g : State → β} {next next' : State → State}
    (h : Action.Like L P (fun σ => .value (f σ) (next σ)) (fun τ => .value (g τ) (next' τ)))
    (hnext : ∀ σ, (next σ).frames = σ.frames) (hnext' : ∀ τ, (next' τ).frames = τ.frames) :
    Action.LikeSparing L y P (fun σ => .value (f σ) (next σ))
      (fun τ => .value (g τ) (next' τ)) := by
  refine .of_like h ?_ ?_
  · rintro σ _ ⟨⟩ i
    rw [hnext]
  · rintro τ _ ⟨⟩ i
    rw [hnext']

end Action.LikeSparing

theorem LikeBindings.names {bs bs' : List (String × Value)} (h : LikeBindings L bs bs') :
    (∀ b ∈ bs, L.name b.1) ∧ ∀ b ∈ bs', L.name b.1 := by
  induction h with
  | nil => exact ⟨nofun, nofun⟩
  | cons hb _ ih =>
      obtain ⟨hsame, hname, -⟩ := hb
      exact ⟨List.forall_mem_cons.mpr ⟨hname, ih.1⟩,
        List.forall_mem_cons.mpr ⟨hsame ▸ hname, ih.2⟩⟩

/-- Where the name may not occur, evaluation does not bind it. -/
def Accord.sparing (hL : ∀ n, L.name n → n ≠ y) : Accord L where
  Agree := Action.LikeSparing L y
  pure h := .of_still (.pure h) (fun _ => rfl) fun _ => rfl
  fail _ _ _ h := by
    refine .of_like (.fail h) ?_ ?_ <;>
    · rintro σ _ ⟨⟩
      exact .refl y σ
  bind := .bind
  reported := .reported
  write text := .of_still (.emit (.wrote text)) (fun _ => rfl) fun _ => rfl
  fault source text _ _ he :=
    .of_still (.emit (.reported source text (.read he))) (fun _ => rfl) fun _ => rfl
  request name := .of_still (.request name) (fun _ => rfl) fun _ => rfl
  freshIdentity := .of_still .freshIdentity (fun _ => rfl) fun _ => rfl
  takeText := .of_still .takeText (fun _ => rfl) fun _ => rfl
  newFrame p _ _ hbs := by
    refine .of_like (.newFrame (Frame.like_of_bindings (some p) hbs)) ?_ ?_
    · rintro σ _ ⟨⟩
      exact State.spares_push (fun b hb => hL _ (hbs.names.1 b hb)) σ (some p)
    · rintro σ _ ⟨⟩
      exact State.spares_push (fun b hb => hL _ (hbs.names.2 b hb)) σ (some p)
  bindIn i _ _ _ hname hv := by
    refine .of_like (.bindIn i _ hv) ?_ ?_
    · rintro σ _ ⟨⟩
      exact State.spares_bind (hL _ hname) σ i _
    · rintro σ _ ⟨⟩
      exact State.spares_bind (hL _ hname) σ i _
  lookup i _ _ _ hname hs := by
    refine .of_like (.lookup i hname hs) ?_ ?_ <;>
    · intro σ σ' hσ'
      unfold Action.lookup at hσ'
      split at hσ' <;> cases hσ' <;> exact .refl y σ
  root i := .of_still (fun _ _ hστ => .value (hστ.frames.root i).symm hστ) (fun _ => rfl)
    fun _ => rfl

end

/-! ## States that differ in the bindings of one name -/

section

variable {y : String} {hy : Form.ofName? y = none} {log : List Event} {σ τ : State}

theorem Likeness.strict_without (hy : Form.ofName? y = none) (log : List Event) :
    (Likeness.without hy log).Strict :=
  ⟨fun h => h.symm, fun h => h.symm⟩

theorem Value.Lacks.like {v : Value} (h : v.Lacks y) (hy : Form.ofName? y = none)
    (log : List Event) : v.Like (.without hy log) v :=
  Throughout.like (fun _ hn => hn) (fun _ _ => rfl) h

theorem State.DifferOnly.like (h : σ.DifferOnly y τ) (hbound : σ.frames.LackElsewhere y)
    (hfiles : σ.files.Lack y) (hy : Form.ofName? y = none) :
    σ.Like (.without hy σ.log) τ where
  files := h.files
  admits name text htext ts hts t ht n hn heq := by
    refine hfiles name text ts htext hts t ht ?_
    rw [hn, heq]
  made k := by rw [h.made]; rfl
  texts k index := by rw [h.texts]; rfl
  frames i := by
    rcases cases_of_rel (h.frames i) with ⟨hf, hg⟩ | ⟨f, g, hf, hg, hfg⟩
    · rw [hf, hg]
      exact .none
    · rw [hf, hg]
      refine .some ⟨hfg.parent, fun n hn => ?_⟩
      rw [hfg.find n hn]
      cases hv : f.find? n with
      | none => exact .none
      | some v => exact .some ((hbound i f n v hf hn hv).like hy σ.log)
  log := ⟨[], [], rfl, h.log, .nil⟩

theorem Frame.Like.differOnly {f g : Frame} (h : f.Like (.without hy log) g) :
    f.DifferOnly y g := by
  refine ⟨h.parent, fun n hn => ?_⟩
  rcases cases_of_rel (h.find n hn) with ⟨hf, hg⟩ | ⟨v, w, hf, hg, hvw⟩
  · rw [hf, hg]
  · rw [hf, hg, hvw.eq (Likeness.strict_without hy log)]

theorem State.Like.differOnly (h : σ.Like (.without hy log) τ) : σ.DifferOnly y τ where
  frames i := by
    rcases h.frames.cases i with ⟨hf, hg⟩ | ⟨f, g, hf, hg, hfg⟩
    · rw [hf, hg]
      exact .none
    · rw [hf, hg]
      exact .some hfg.differOnly
  made := (Identity.made.inj (h.made 0)).symm
  texts := (Identity.read.inj (h.texts 0 0)).1.symm
  files := h.files
  log := by
    obtain ⟨new, new', hσ, hτ, hnew⟩ := h.log
    have heq : new = new' := by
      rw [← List.forall₂_eq_eq_eq]
      exact hnew.imp fun _ _ he => (he.eq (Likeness.strict_without hy log)).symm
    rw [hσ, hτ, heq]
    rfl

theorem Ending.Like.differOnly {r r' : Ending Value}
    (h : r.Like (.without hy log) (Value.Like (.without hy log)) r') (hr : r ≠ .cutShort) :
    r.DifferOnly y r' := by
  cases h with
  | value hv hστ =>
      rw [hv.eq (Likeness.strict_without hy log)]
      exact .value _ hστ.differOnly
  | error he hστ =>
      rw [he.eq (Likeness.strict_without hy log)]
      exact .error _ hστ.differOnly
  | cutShort => exact absurd rfl hr

end

/-! ## Evaluation -/

namespace Eval

/-- A name that is not mentioned in an expression, nor in what other names are bound to, nor in
any file, makes no difference to how the expression is evaluated, and its bindings are left as
they are. -/
theorem unmentioned_name {y : String} (hy : Form.ofName? y = none) {e : Value} (he : e.Lacks y)
    {σ τ : State} (hστ : σ.DifferOnly y τ) (hbound : σ.frames.LackElsewhere y)
    (hfiles : σ.files.Lack y) (s : Settings) (level : Nat) (i : FrameId) :
    ((∃ r, Ends s level e i σ r) ↔ ∃ r', Ends s level e i τ r') ∧
      ∀ r r', Ends s level e i σ r → Ends s level e i τ r' →
        r.DifferOnly y r' ∧ r.Spares y σ ∧ r'.Spares y τ := by
  have hagree : ∀ budget, (nested s budget level e i).LikeSparing (.without hy σ.log) y
      (Value.Like _) (nested s budget level e i) := fun budget =>
    like_nested (C := .sparing fun _ hn => hn) (fun _ _ _ => ⟨.cutShort, nofun, nofun⟩) s budget
      level e e i (he.like hy σ.log)
  have hlike := hστ.like hbound hfiles hy
  refine ⟨⟨?_, ?_⟩, ?_⟩
  · rintro ⟨_, hr, budget, rfl⟩
    exact ⟨_, mt (hagree budget σ τ hlike).1.cutShort_iff.mpr hr, budget, rfl⟩
  · rintro ⟨_, hr, budget, rfl⟩
    exact ⟨_, mt (hagree budget σ τ hlike).1.cutShort_iff.mp hr, budget, rfl⟩
  · rintro _ r' ⟨hr, budget, rfl⟩ hr'
    obtain ⟨hends, hspares, hspares'⟩ := hagree budget σ τ hlike
    -- The one budget does for both, and there is no other end from the other state.
    obtain rfl := hr'.unique ⟨mt hends.cutShort_iff.mpr hr, budget, rfl⟩
    exact ⟨hends.differOnly hr, hspares, hspares'⟩

section

/-- A session in which `y` is bound to a value that mentions it. -/
def boundToItself : State :=
  { sampleStart with frames := sampleStart.frames.bind 0 "y" (.symbol "y" .none) }

theorem boundToItself_differs : sampleStart.DifferOnly "y" boundToItself where
  frames i := by
    rw [boundToItself, Frames.get?_bind]
    split
    · cases sampleStart.frames.get? i with
      | none => exact .none
      | some f =>
          exact .some ⟨rfl, fun n hn => (Frame.find?_bind f "y" n _).trans (if_neg hn)⟩
    · cases sampleStart.frames.get? i with
      | none => exact .none
      | some f => exact .some ⟨rfl, fun _ _ => rfl⟩
  made := rfl
  texts := rfl
  files := rfl
  log := rfl

theorem lackElsewhere_start (files : Files) (y : String) :
    (Session.start files).frames.LackElsewhere y := by
  intro i f n v hf _ hv
  obtain ⟨p, rfl⟩ := Session.primitive_of_bound hf hv
  exact trivial

theorem unmentioned_name_sample :
    sample.Lacks "y" ∧ Ends ⟨.tailCall, 3⟩ 0 sample 0 sampleStart sampleEnd ∧
      ∃ r', Ends ⟨.tailCall, 3⟩ 0 sample 0 boundToItself r' ∧ sampleEnd.DifferOnly "y" r' ∧
        r'.Spares "y" boundToItself := by
  have hlacks : sample.Lacks "y" := by
    simp [sample, Value.ofList, Value.Lacks, Value.Throughout]
  have hbound : sampleStart.frames.LackElsewhere "y" := lackElsewhere_start _ _
  have hfiles : sampleStart.files.Lack "y" := nofun
  have hname := unmentioned_name rfl hlacks boundToItself_differs hbound hfiles ⟨.tailCall, 3⟩ 0 0
  obtain ⟨r', hr'⟩ := hname.1.mp ⟨_, sample_ends_tailCall⟩
  obtain ⟨hdiffer, -, hspares⟩ := hname.2 _ _ sample_ends_tailCall hr'
  exact ⟨hlacks, sample_ends_tailCall, r', hr', hdiffer, hspares⟩

end

end Eval

end DualScope
