import DualScope.Proofs.Likeness.Evaluator

/-!
# Runs that part

Two runs from one state may be the same for some time and then part, for one of them is cut off
or refused where the other one goes on. What happens in the first of them from then on does not
matter. But it shows in its log that it is no longer the other run: a *stop* is there, an event
that tells so, and what went out before the first stop went out in both runs. An error may be
such that the event of its report will be a stop; until it is reported it is *pending*.

Behind a stop the two runs have nothing in common, so that a result of the one need not be
a result of the other. All that has to be known then is that logs only grow.
-/

namespace DualScope

/-! ## Everything as it is -/

/-- Everything stands for itself, and all names may occur. -/
def Likeness.same : Likeness :=
  .inPlace .same (fun _ => True) trivial trivial []

theorem Likeness.strict_same : Likeness.same.Strict :=
  ⟨fun h => h.symm, fun h => h.symm⟩

theorem Value.like_same (v : Value) : v.Like .same v :=
  .refl (fun _ => trivial) (fun _ => rfl) v

theorem LikeBindings.eq_same {bs bs' : List (String × Value)} (h : LikeBindings .same bs bs') :
    bs' = bs := by
  induction h with
  | nil => rfl
  | @cons b b' bs bs' hb _ ih =>
      obtain ⟨n, v⟩ := b
      obtain ⟨n', v'⟩ := b'
      obtain ⟨rfl, -, hv⟩ := hb
      rw [ih, show v' = v from hv.eq Likeness.strict_same]

/-! ## Logs that grow -/

namespace Ending

/-- Where it ended, the state is related to `σ`, and for a result `P` holds. -/
def Leads (R : State → State → Prop) (σ : State) (P : α → Prop) : Ending α → Prop
  | .value a σ' => P a ∧ R σ σ'
  | .error _ σ' => R σ σ'
  | .cutShort => True

/-- Where it ended, the log begins with what it was in `σ`. -/
def Grows (σ : State) (P : α → Prop) (r : Ending α) : Prop :=
  r.Leads (fun σ σ' => σ.log <:+ σ'.log) σ P

/-- Where it ended, the log is at least `log`. -/
def Has (log : List Event) (r : Ending α) : Prop :=
  ∀ σ', r.state? = some σ' → log <:+ σ'.log

variable {σ σ₁ : State} {P : α → Prop} {r : Ending α} {log : List Event}

theorem Leads.earlier {R : State → State → Prop}
    (htrans : ∀ {σ₁ σ₂ σ₃}, R σ₁ σ₂ → R σ₂ σ₃ → R σ₁ σ₃) (hσ : R σ σ₁) (h : r.Leads R σ₁ P) :
    r.Leads R σ P := by
  cases r with
  | value a σ' => exact ⟨h.1, htrans hσ h.2⟩
  | error e σ' => exact htrans hσ h
  | cutShort => trivial

theorem Grows.has (h : r.Grows σ P) (hlog : log <:+ σ.log) : r.Has log := by
  intro σ' hσ'
  cases r with
  | value a σ₁ =>
      cases hσ'
      exact hlog.trans h.2
  | error e σ₁ =>
      cases hσ'
      exact hlog.trans h
  | cutShort => cases hσ'

end Ending

section

variable {x : Action α} {f : α → Action β} {P : α → Prop} {Q : β → Prop} {σ : State}
  {log : List Event}

theorem Action.leads_bind {R : State → State → Prop}
    (htrans : ∀ {σ₁ σ₂ σ₃}, R σ₁ σ₂ → R σ₂ σ₃ → R σ₁ σ₃) (hx : (x σ).Leads R σ P)
    (hf : ∀ a σ₁, P a → (f a σ₁).Leads R σ₁ Q) : ((x >>= f) σ).Leads R σ Q := by
  rw [bind_apply]
  cases h : x σ with
  | value a σ₁ =>
      rw [h] at hx
      exact (hf a σ₁ hx.1).earlier htrans hx.2
  | error e σ₁ =>
      rw [h] at hx
      exact hx
  | cutShort => trivial

theorem Action.grows_bind (hx : (x σ).Grows σ P) (hf : ∀ a σ₁, P a → (f a σ₁).Grows σ₁ Q) :
    ((x >>= f) σ).Grows σ Q :=
  leads_bind .trans hx hf

/-- What is in the log stays there when the result of `x` is made use of. -/
theorem Action.has_bind (hx : (x σ).Grows σ P) (hf : ∀ a σ₁, P a → (f a σ₁).Grows σ₁ Q)
    (hlog : (x σ).Has log) : ((x >>= f) σ).Has log := by
  rw [bind_apply]
  cases h : x σ with
  | value a σ₁ =>
      rw [h] at hx hlog
      exact (hf a σ₁ hx.1).has (hlog σ₁ rfl)
  | error e σ₁ =>
      rw [h] at hlog
      exact fun σ' hσ' => hlog σ' hσ'
  | cutShort => nofun

end

section

variable {x : Action α} {σ : State} {source text : String}

theorem Action.leads_reported {R : State → State → Prop} {P : α → Prop} {Q : Option α → Prop}
    (hemit : ∀ {σ₁ σ₂} e, R σ₁ σ₂ → R σ₁ (σ₂.emit e)) (hx : (x σ).Leads R σ P) (hnone : Q none)
    (hsome : ∀ a, P a → Q (some a)) : (x.reported source text σ).Leads R σ Q := by
  unfold reported
  cases h : x σ with
  | value a σ₁ =>
      rw [h] at hx
      exact ⟨hsome a hx.1, hx.2⟩
  | error e σ₁ =>
      rw [h] at hx
      exact ⟨hnone, hemit _ hx⟩
  | cutShort => trivial

theorem Action.grows_reported {P : α → Prop} {Q : Option α → Prop} (hx : (x σ).Grows σ P)
    (hnone : Q none) (hsome : ∀ a, P a → Q (some a)) :
    (x.reported source text σ).Grows σ Q :=
  leads_reported (fun _ h => h.trans (List.suffix_cons _ _)) hx hnone hsome

theorem Action.has_reported {log : List Event} (hlog : (x σ).Has log) :
    (x.reported source text σ).Has log := by
  unfold reported
  cases h : x σ with
  | value a σ₁ =>
      rw [h] at hlog
      exact fun σ' hσ' => hlog σ' hσ'
  | error e σ₁ =>
      rw [h] at hlog
      rintro _ ⟨⟩
      exact (hlog σ₁ rfl).trans (List.suffix_cons _ _)
  | cutShort => nofun

end

/-! ## Parting -/

/-- What makes two runs part: the events that show in the first one that they have parted, and
the errors that come to such an event when they are reported. -/
structure Parting where
  stop : Event → Prop
  pending : EvalError → Prop
  stop_of_pending : ∀ source text {e}, pending e → stop (.reported source text (.eval e))

variable {p : Parting}

/-- Nothing that went out from `σ` to `σ'` is a stop. -/
def Parting.Clean (p : Parting) (σ σ' : State) : Prop :=
  ∃ new, σ'.log = new ++ σ.log ∧ ∀ ev ∈ new, ¬ p.stop ev

namespace Parting.Clean

variable {σ σ₁ σ₂ : State}

theorem refl (p : Parting) (σ : State) : p.Clean σ σ :=
  ⟨[], rfl, List.forall_mem_nil _⟩

theorem trans (h₁ : p.Clean σ σ₁) (h₂ : p.Clean σ₁ σ₂) : p.Clean σ σ₂ := by
  obtain ⟨new₁, hlog₁, hclean₁⟩ := h₁
  obtain ⟨new₂, hlog₂, hclean₂⟩ := h₂
  refine ⟨new₂ ++ new₁, by rw [hlog₂, hlog₁, List.append_assoc], fun ev hev => ?_⟩
  rcases List.mem_append.mp hev with hev | hev
  · exact hclean₂ ev hev
  · exact hclean₁ ev hev

theorem emit {ev : Event} (h : p.Clean σ σ₁) (hev : ¬ p.stop ev) : p.Clean σ (σ₁.emit ev) := by
  obtain ⟨new, hlog, hclean⟩ := h
  exact ⟨ev :: new, congrArg (ev :: ·) hlog, List.forall_mem_cons.mpr ⟨hev, hclean⟩⟩

end Parting.Clean

/-- From `σ`, the runs come to the same end without a stop, or they have parted: the first one
has ended with an error that is pending, or there is a stop in its log. What went out before
that, the other one has in its log. Nothing is said where the other one is cut short. -/
inductive Ending.Parts (p : Parting) (P : α → β → Prop) (σ : State) : Ending α → Ending β → Prop
  | cutShort (r : Ending α) : Parts p P σ r .cutShort
  | value {a : α} {b : β} {σ' : State} : P a b → p.Clean σ σ' →
    Parts p P σ (.value a σ') (.value b σ')
  | error {e : EvalError} {σ' : State} : p.Clean σ σ' → Parts p P σ (.error e σ') (.error e σ')
  | pending {e : EvalError} {σ' : State} {r : Ending β} : p.pending e → p.Clean σ σ' →
    r.Has σ'.log → Parts p P σ (.error e σ') r
  | stopped {r : Ending α} {r' : Ending β} {σ₁ : State} {ev : Event} : p.stop ev →
    p.Clean σ σ₁ → r.Has (ev :: σ₁.log) → r'.Has σ₁.log → Parts p P σ r r'

namespace Ending.Parts

variable {P : α → β → Prop} {σ σ₁ : State} {r : Ending α} {r' : Ending β}

theorem earlier (hclean : p.Clean σ σ₁) (h : r.Parts p P σ₁ r') : r.Parts p P σ r' := by
  cases h with
  | cutShort => exact .cutShort _
  | value hab h => exact .value hab (hclean.trans h)
  | error h => exact .error (hclean.trans h)
  | pending he h hr => exact .pending he (hclean.trans h) hr
  | stopped hev h hr hr' => exact .stopped hev (hclean.trans h) hr hr'

end Ending.Parts

/-- The first action comes to an end, in both actions the log grows, and they come to the same
end or part. -/
structure Action.Parts (p : Parting) (P : α → β → Prop) (x : Action α) (y : Action β) : Prop where
  ends : ∀ σ, x σ ≠ .cutShort
  left : ∀ σ, (x σ).Grows σ fun a => ∃ b, P a b
  right : ∀ σ, (y σ).Grows σ fun b => ∃ a, P a b
  parts : ∀ σ, (x σ).Parts p P σ (y σ)

namespace Action.Parts

variable {P : α → β → Prop} {Q : γ → δ → Prop}

/-- Both actions do the same, which leaves the log as it is. -/
theorem of_eq {x : Action α} {y : Action β}
    (h : ∀ σ, (∃ a b σ', x σ = .value a σ' ∧ y σ = .value b σ' ∧ P a b ∧ σ'.log = σ.log) ∨
      ∃ e, x σ = .error e σ ∧ y σ = .error e σ) : x.Parts p P y where
  ends σ := by
    rcases h σ with ⟨a, b, σ', hx, -⟩ | ⟨e, hx, -⟩ <;> rw [hx] <;> nofun
  left σ := by
    rcases h σ with ⟨a, b, σ', hx, -, hab, hlog⟩ | ⟨e, hx, -⟩ <;> rw [hx]
    · exact ⟨⟨b, hab⟩, show σ.log <:+ σ'.log from hlog ▸ List.suffix_refl _⟩
    · exact List.suffix_refl _
  right σ := by
    rcases h σ with ⟨a, b, σ', -, hy, hab, hlog⟩ | ⟨e, -, hy⟩ <;> rw [hy]
    · exact ⟨⟨a, hab⟩, show σ.log <:+ σ'.log from hlog ▸ List.suffix_refl _⟩
    · exact List.suffix_refl _
  parts σ := by
    rcases h σ with ⟨a, b, σ', hx, hy, hab, hlog⟩ | ⟨e, hx, hy⟩ <;> rw [hx, hy]
    · exact .value hab ⟨[], hlog, List.forall_mem_nil _⟩
    · exact .error (.refl p σ)

/-- The same goes out in both. -/
theorem emit (ev : Event) {f : State → α} {g : State → β} (hP : ∀ σ, P (f σ) (g σ)) :
    Action.Parts p P (fun σ => .value (f σ) (σ.emit ev)) (fun σ => .value (g σ) (σ.emit ev)) where
  ends σ := nofun
  left σ := ⟨⟨_, hP σ⟩, List.suffix_cons _ _⟩
  right σ := ⟨⟨_, hP σ⟩, List.suffix_cons _ _⟩
  parts σ := by
    by_cases hev : p.stop ev
    · refine .stopped hev (.refl p σ) ?_ ?_
      · rintro _ ⟨⟩
        exact List.suffix_refl _
      · rintro _ ⟨⟩
        exact List.suffix_cons _ _
    · exact .value (hP σ) ((Parting.Clean.refl p σ).emit hev)

theorem bind {x : Action α} {y : Action β} {f : α → Action γ} {g : β → Action δ}
    (h : x.Parts p P y) (hfg : ∀ a b, P a b → (f a).Parts p Q (g b)) :
    (x >>= f).Parts p Q (y >>= g) := by
  have hf : ∀ a σ, (∃ b, P a b) → (f a σ).Grows σ fun c => ∃ d, Q c d :=
    fun a σ ⟨b, hab⟩ => (hfg a b hab).left σ
  have hg : ∀ b σ, (∃ a, P a b) → (g b σ).Grows σ fun d => ∃ c, Q c d :=
    fun b σ ⟨a, hab⟩ => (hfg a b hab).right σ
  refine ⟨fun σ => ?_, fun σ => grows_bind (h.left σ) hf, fun σ => grows_bind (h.right σ) hg,
    fun σ => ?_⟩
  · have hleft := h.left σ
    rw [bind_apply]
    cases hx : x σ with
    | value a σ₁ =>
        rw [hx] at hleft
        obtain ⟨⟨b, hab⟩, -⟩ := hleft
        exact (hfg a b hab).ends σ₁
    | error e σ₁ => nofun
    | cutShort => exact absurd hx (h.ends σ)
  · have hparts := h.parts σ
    have hx : ∀ {log}, (x σ).Has log → ((x >>= f) σ).Has log := has_bind (h.left σ) hf
    have hy : ∀ {log}, (y σ).Has log → ((y >>= g) σ).Has log := has_bind (h.right σ) hg
    rw [bind_apply] at hx hy ⊢
    rw [bind_apply]
    generalize x σ = r at hparts hx ⊢
    generalize y σ = r' at hparts hy ⊢
    cases hparts with
    | cutShort => exact .cutShort _
    | value hab hclean => exact ((hfg _ _ hab).parts _).earlier hclean
    | error hclean => exact .error hclean
    | pending he hclean hlog => exact .pending he hclean (hy hlog)
    | stopped hev hclean hlog hlog' => exact .stopped hev hclean (hx hlog) (hy hlog')

/-- A pending error is reported, and then there is a stop. -/
theorem reported {x : Action α} {y : Action β} (source text : String) (h : x.Parts p P y) :
    (x.reported source text).Parts p (Option.Rel P) (y.reported source text) where
  ends σ := by
    have hends := h.ends σ
    unfold Action.reported
    cases hx : x σ with
    | cutShort => exact absurd hx hends
    | _ => nofun
  left σ := by
    refine grows_reported (h.left σ) ⟨none, .none⟩ ?_
    rintro a ⟨b, hab⟩
    exact ⟨some b, .some hab⟩
  right σ := by
    refine grows_reported (h.right σ) ⟨none, .none⟩ ?_
    rintro b ⟨a, hab⟩
    exact ⟨some a, .some hab⟩
  parts σ := by
    have hparts := h.parts σ
    have hx : ∀ {log}, (x σ).Has log → (x.reported source text σ).Has log := has_reported
    have hy : ∀ {log}, (y σ).Has log → (y.reported source text σ).Has log := has_reported
    unfold Action.reported at hx hy ⊢
    generalize x σ = r at hparts hx ⊢
    generalize y σ = r' at hparts hy ⊢
    cases hparts with
    | cutShort => exact .cutShort _
    | value hab hclean => exact .value (.some hab) hclean
    | @error e σ' hclean =>
        by_cases hev : p.stop (.reported source text (.eval e))
        · refine .stopped hev hclean ?_ (hy ?_)
          · rintro _ ⟨⟩
            exact List.suffix_refl _
          · rintro _ ⟨⟩
            exact List.suffix_refl _
        · exact .value .none (hclean.emit hev)
    | pending he hclean hlog =>
        refine .stopped (p.stop_of_pending source text he) hclean ?_ (hy hlog)
        rintro _ ⟨⟩
        exact List.suffix_refl _
    | stopped hev hclean hlog hlog' => exact .stopped hev hclean (hx hlog) (hy hlog')

end Action.Parts

/-- Runs that are the same until they part. -/
def Accord.parting (p : Parting) : Accord .same where
  Agree := Action.Parts p
  pure h := .of_eq fun σ => .inl ⟨_, _, σ, rfl, rfl, h, rfl⟩
  fail _ _ _ he := .of_eq fun σ => .inr ⟨_, rfl, by rw [he.eq Likeness.strict_same]; rfl⟩
  bind := .bind
  reported := .reported
  write text := .emit (.wrote text) fun _ => rfl
  fault source text _ _ he := by
    rw [he.eq Likeness.strict_same]
    exact .emit (.reported source text (.read _)) fun _ => rfl
  request name := .emit (.opened name) fun σ =>
    ⟨rfl, fun _ _ _ _ _ _ _ _ => trivial⟩
  freshIdentity := .of_eq fun σ => .inl ⟨_, _, _, rfl, rfl, rfl, rfl⟩
  takeText := .of_eq fun σ => .inl ⟨_, _, _, rfl, rfl, fun _ => rfl, rfl⟩
  newFrame p _ _ hbs := by
    rw [hbs.eq_same]
    exact .of_eq fun σ => .inl ⟨_, _, _, rfl, rfl, rfl, rfl⟩
  bindIn i _ _ _ _ hv := by
    rw [hv.eq Likeness.strict_same]
    exact .of_eq fun σ => .inl ⟨_, _, _, rfl, rfl, rfl, rfl⟩
  lookup i name s s' _ hs := by
    cases hs
    refine .of_eq fun σ => ?_
    unfold Action.lookup
    cases σ.frames.lookup name i with
    | some v => exact .inl ⟨v, v, σ, rfl, rfl, v.like_same, rfl⟩
    | none => exact .inr ⟨_, rfl, rfl⟩
  root i := .of_eq fun σ => .inl ⟨_, _, σ, rfl, rfl, rfl, rfl⟩

end DualScope
