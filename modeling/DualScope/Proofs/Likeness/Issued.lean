import DualScope.Proofs.Likeness.Parting

/-!
# Identities that were given out

Identities are given out by number. Those in the values of a session have been given out, which is
why the ones that come next are new. That it stays so is shown by comparing an evaluation with
itself, by a likeness that only the identities below a number survive: one in which all others come
one later. Two sides that are the same and alike in this sense have no such identity. An evaluation
does not part from itself in this as long as no more than that number are given out, and as the
count of identities only ever grows, it is enough to ask this of the end.
-/

namespace DualScope

/-! ## Identities by number -/

/-- The identity, one later if it is one of those that are given out from the number `n` on. -/
def Identity.later (n : Nat) : Identity → Identity
  | .made k => .made (if k < n then k else k + 1)
  | a => a

/-- The identity is none of those that are given out from the number `n` on. -/
def Identity.Issued (n : Nat) : Identity → Prop
  | .made k => k < n
  | _ => True

/-- All identities in the value were given out. -/
def Value.Issued (n : Nat) (v : Value) : Prop :=
  v.Throughout (fun _ => True) (Identity.Issued n)

/-- All identities in values that are bound were given out. -/
def State.Issued (n : Nat) (σ : State) : Prop :=
  ∀ i f name v, σ.frames.get? i = some f → f.find? name = some v → v.Issued n

namespace Identity

variable {n m : Nat} {a : Identity}

theorem later_injective (n : Nat) : Function.Injective (later n) := by
  intro a b h
  cases a <;> cases b <;> simp only [later, made.injEq, reduceCtorEq] at h <;> grind

theorem later_eq_iff : a.later n = a ↔ a.Issued n := by
  cases a <;> simp [later, Issued]

theorem Issued.mono (h : a.Issued n) (hnm : n ≤ m) : a.Issued m := by
  cases a with
  | made k => exact Nat.lt_of_lt_of_le h hnm
  | _ => trivial

end Identity

theorem Value.Throughout.mono {name : String → Prop} {identity identity' : Identity → Prop}
    (hidentity : ∀ a, identity a → identity' a) {v : Value} (h : v.Throughout name identity) :
    v.Throughout name identity' := by
  induction v with
  | pair id car cdr span ihcar ihcdr => exact ⟨hidentity id h.1, ihcar h.2.1, ihcdr h.2.2⟩
  | lambda id formals body home span ihf ihb => exact ⟨hidentity id h.1, ihf h.2.1, ihb h.2.2⟩
  | mu id formals body span ihf ihb => exact ⟨hidentity id h.1, ihf h.2.1, ihb h.2.2⟩
  | _ => exact h

theorem State.Issued.mono {n m : Nat} {σ : State} (h : σ.Issued n) (hnm : n ≤ m) : σ.Issued m :=
  fun i f name v hf hv => (h i f name v hf hv).mono fun _ ha => ha.mono hnm

/-! ## Everything later -/

/-- On the other side all identities from the number `n` on come one later. -/
def Correspondence.later (n : Nat) : Correspondence where
  rel a b := b = a.later n
  rel_iff ha hb := by
    rw [ha, hb]
    exact (Identity.later_injective n).eq_iff.symm
  rel_anonymous := rfl

def Likeness.later (n : Nat) (log : List Event) : Likeness :=
  .inPlace (.later n) (fun _ => True) trivial trivial log

section

variable {n : Nat} {log : List Event} {v : Value} {σ : State}

theorem Value.Issued.like (h : v.Issued n) (log : List Event) : v.Like (.later n log) v :=
  Throughout.like (fun _ _ => trivial) (fun _ ha => (Identity.later_eq_iff.mpr ha).symm) h

/-- What is alike itself has no identity that would come later. -/
theorem Value.issued_of_like (h : v.Like (.later n log) v) : v.Issued n := by
  have hissued : ∀ {id : Identity}, (Likeness.later n log).identity id id → id.Issued n :=
    fun hid => Identity.later_eq_iff.mp hid.symm
  induction v with
  | pair id car cdr span ihcar ihcdr =>
      cases h with
      | pair hid hcar hcdr _ => exact ⟨hissued hid, ihcar hcar, ihcdr hcdr⟩
  | lambda id formals body home span ihf ihb =>
      cases h with
      | lambda _ hid hf hb _ => exact ⟨hissued hid, ihf hf, ihb hb⟩
  | mu id formals body span ihf ihb =>
      cases h with
      | mu hid hf hb _ => exact ⟨hissued hid, ihf hf, ihb hb⟩
  | _ => trivial

/-- Every value has one that is alike on the other side. -/
theorem Value.exists_later (n : Nat) (log : List Event) (v : Value) :
    ∃ w : Value, v.Like (.later n log) w := by
  induction v with
  | pair id car cdr span ihcar ihcdr =>
      obtain ⟨car', hcar⟩ := ihcar
      obtain ⟨cdr', hcdr⟩ := ihcdr
      exact ⟨_, .pair rfl hcar hcdr rfl⟩
  | lambda id formals body home span ihf ihb =>
      obtain ⟨formals', hf⟩ := ihf
      obtain ⟨body', hb⟩ := ihb
      exact ⟨_, .lambda home rfl hf hb rfl⟩
  | mu id formals body span ihf ihb =>
      obtain ⟨formals', hf⟩ := ihf
      obtain ⟨body', hb⟩ := ihb
      exact ⟨_, .mu rfl hf hb rfl⟩
  | symbol name span => exact ⟨_, .symbol trivial rfl⟩
  | number x span => exact ⟨_, .number x rfl⟩
  | boolean b span => exact ⟨_, .boolean b rfl⟩
  | string t span => exact ⟨_, .string t rfl⟩
  | nil span => exact ⟨_, .nil rfl⟩
  | okay span => exact ⟨_, .okay rfl⟩
  | primitive p span => exact ⟨_, .primitive p rfl⟩

theorem State.Issued.frames (h : σ.Issued n) (log : List Event) :
    σ.frames.Like (.later n log) σ.frames := by
  intro i
  cases hf : σ.frames.get? i with
  | none => exact .none
  | some f =>
      refine .some ⟨rfl, fun name _ => ?_⟩
      cases hv : f.find? name with
      | none => exact .none
      | some v => exact .some ((h i f name v hf hv).like log)

theorem State.issued_of_like (h : σ.frames.Like (.later n log) σ.frames) : σ.Issued n := by
  intro i f name v hf hv
  rcases h.cases i with ⟨hno, -⟩ | ⟨g, g', hg, hg', hlike⟩
  · rw [hf] at hno
    cases hno
  · rw [hf] at hg hg'
    cases hg
    cases hg'
    have hfind := hlike.find name trivial
    rw [hv] at hfind
    cases hfind with
    | some hvv => exact Value.issued_of_like hvv

/-- One identity more is given out, and all that come are one later. -/
theorem State.Issued.like (h : σ.Issued σ.made) :
    σ.Like (.later σ.made σ.log) { σ with made := σ.made + 1 } where
  files := rfl
  admits _ _ _ _ _ _ _ _ _ := trivial
  made k := by
    change _ = Identity.made _
    rw [if_neg (by omega)]
    exact congrArg Identity.made (by dsimp only; omega)
  texts _ _ := rfl
  frames := h.frames σ.log
  log := ⟨[], [], rfl, rfl, .nil⟩

end

/-! ## Given out on the other side -/

/-- If the identity that stands for another was given out before the one that stands for the next,
the other was given out before that. -/
theorem Identity.issued_of_later {n m m' : Nat} {a : Identity}
    (hm : Identity.made m' = (Identity.made m).later n) (h : (a.later n).Issued m') :
    a.Issued m := by
  cases a with
  | made k =>
      simp only [later, made.injEq] at hm
      simp only [later, Issued] at h ⊢
      grind
  | _ => trivial

section

variable {n m m' : Nat} {log : List Event} (hm : Identity.made m' = (Identity.made m).later n)

include hm

theorem Value.Like.issued {v w : Value} (h : v.Like (.later n log) w) (hw : w.Issued m') :
    v.Issued m := by
  have hissued : ∀ {a b : Identity}, (Likeness.later n log).identity a b → b.Issued m' →
      a.Issued m := fun hab hb => Identity.issued_of_later hm (hab ▸ hb)
  induction h with
  | pair hid _ _ _ ihcar ihcdr => exact ⟨hissued hid hw.1, ihcar hw.2.1, ihcdr hw.2.2⟩
  | lambda home hid _ _ _ ihf ihb => exact ⟨hissued hid hw.1, ihf hw.2.1, ihb hw.2.2⟩
  | mu hid _ _ _ ihf ihb => exact ⟨hissued hid hw.1, ihf hw.2.1, ihb hw.2.2⟩
  | _ => trivial

theorem Frames.Like.issued {σ τ : State} (h : σ.frames.Like (.later n log) τ.frames)
    (hτ : τ.Issued m') : σ.Issued m := by
  intro i f name v hf hv
  rcases h.cases i with ⟨hno, -⟩ | ⟨g, g', hg, hg', hlike⟩
  · rw [hf] at hno
    cases hno
  · rw [hf] at hg
    cases hg
    rcases cases_of_rel (hlike.find name trivial) with ⟨hno, -⟩ | ⟨u, u', hu, hu', huu⟩
    · rw [hv] at hno
      cases hno
    · rw [hv] at hu
      cases hu
      exact huu.issued hm (hτ i g' name u' hg' hu')

end

/-! ## Evaluations that keep step -/

/-- The states have come equally far, and what is bound in them is alike. -/
structure State.Abreast (L : Likeness) (σ τ : State) : Prop where
  files : τ.files = σ.files
  made : τ.made = σ.made
  texts : τ.texts = σ.texts
  frames : σ.frames.Like L τ.frames

/-- Both end in states that have come equally far, or in the first one more than `n` identities
were given out. -/
inductive Ending.Abreast (L : Likeness) (n : Nat) (P : α → β → Prop) : Ending α → Ending β → Prop
  | value {a : α} {b : β} {σ τ : State} : P a b → σ.Abreast L τ →
    Abreast L n P (.value a σ) (.value b τ)
  | error {e e' : EvalError} {σ τ : State} : σ.Abreast L τ →
    Abreast L n P (.error e σ) (.error e' τ)
  | cutShort (r : Ending β) : Abreast L n P .cutShort r
  | beyond {r : Ending α} {r' : Ending β} {σ : State} : r.state? = some σ → n < σ.made →
    Abreast L n P r r'

/-- Where it ended, no identity was taken back. -/
def Ending.Counts (σ : State) (P : α → Prop) (r : Ending α) : Prop :=
  r.Leads (fun σ σ' => σ.made ≤ σ'.made) σ P

structure Action.Abreast (L : Likeness) (n : Nat) (P : α → β → Prop) (x : Action α)
    (y : Action β) : Prop where
  counts : ∀ σ, (x σ).Counts σ fun a => ∃ b, P a b
  ends : ∀ σ τ, σ.Abreast L τ → (x σ).Abreast L n P (y τ)

theorem Ending.Counts.abreast {L : Likeness} {n : Nat} {P : α → Prop} {Q : α → β → Prop} {σ : State}
    {r : Ending α} (h : r.Counts σ P) (hn : n < σ.made) (r' : Ending β) : r.Abreast L n Q r' := by
  cases r with
  | value a σ' => exact .beyond rfl (Nat.lt_of_lt_of_le hn h.2)
  | error e σ' => exact .beyond rfl (Nat.lt_of_lt_of_le hn h)
  | cutShort => exact .cutShort r'

namespace Action.Abreast

variable {L : Likeness} {n : Nat} {P : α → β → Prop} {Q : γ → δ → Prop}

theorem bind {x : Action α} {y : Action β} {f : α → Action γ} {g : β → Action δ}
    (h : x.Abreast L n P y) (hfg : ∀ a b, P a b → (f a).Abreast L n Q (g b)) :
    (x >>= f).Abreast L n Q (y >>= g) where
  counts σ := leads_bind Nat.le_trans (h.counts σ) fun a σ₁ ⟨b, hab⟩ => (hfg a b hab).counts σ₁
  ends σ τ hστ := by
    have hcounts := h.counts σ
    have hends := h.ends σ τ hστ
    rw [bind_apply, bind_apply]
    generalize x σ = r at hcounts hends ⊢
    generalize y τ = r' at hends ⊢
    cases hends with
    | value hab hστ => exact (hfg _ _ hab).ends _ _ hστ
    | error hστ => exact .error hστ
    | cutShort _ => exact .cutShort _
    | beyond hr hn =>
        cases r with
        | value a σ₁ =>
            cases hr
            obtain ⟨⟨b, hab⟩, -⟩ := hcounts
            exact ((hfg a b hab).counts _).abreast hn _
        | error e σ₁ => exact .beyond hr hn
        | cutShort => exact .cutShort _

theorem reported {x : Action α} {y : Action β} (source text : String)
    (h : x.Abreast L n P y) :
    (x.reported source text).Abreast L n (Option.Rel P) (y.reported source text) where
  counts σ := by
    refine leads_reported (fun _ h => h) (h.counts σ) ⟨none, .none⟩ ?_
    rintro a ⟨b, hab⟩
    exact ⟨some b, .some hab⟩
  ends σ τ hστ := by
    have hends := h.ends σ τ hστ
    unfold Action.reported
    generalize x σ = r at hends ⊢
    generalize y τ = r' at hends ⊢
    cases hends with
    | value hab hστ => exact .value (.some hab) hστ
    | error hστ => exact .value .none { hστ with }
    | cutShort _ => exact .cutShort _
    | beyond hr hn =>
        cases r with
        | value a σ₁ => exact .beyond hr hn
        | error e σ₁ =>
            cases hr
            exact .beyond rfl hn
        | cutShort => exact .cutShort _

/-- Both actions come to a result, with as many identities given out as before. -/
theorem of_value {f : State → α} {g : State → β} {next next' : State → State}
    (hcounts : ∀ σ, σ.made ≤ (next σ).made ∧ ∃ b, P (f σ) b)
    (hends : ∀ σ τ, σ.Abreast L τ → P (f σ) (g τ) ∧ (next σ).Abreast L (next' τ)) :
    Action.Abreast L n P (fun σ => .value (f σ) (next σ)) (fun τ => .value (g τ) (next' τ)) where
  counts σ := (hcounts σ).symm
  ends σ τ hστ := .value (hends σ τ hστ).1 (hends σ τ hστ).2

end Action.Abreast

/-- Evaluations that keep step as long as no more than `n` identities are given out. -/
def Accord.abreast (n : Nat) : Accord (.later n []) where
  Agree := Action.Abreast (.later n []) n
  pure h := .of_value (fun σ => ⟨Nat.le_refl _, _, h⟩) fun _ _ hστ => ⟨h, hστ⟩
  fail P _ _ _ := ⟨fun σ => Nat.le_refl σ.made, fun _ _ hστ => .error hστ⟩
  bind := .bind
  reported := .reported
  write text := .of_value (fun σ => ⟨Nat.le_refl _, _, rfl⟩) fun _ _ hστ => ⟨rfl, { hστ with }⟩
  fault source text _ _ he :=
    .of_value (fun σ => ⟨Nat.le_refl _, _, rfl⟩) fun _ _ hστ => ⟨rfl, { hστ with }⟩
  request name := by
    refine .of_value (fun σ => ⟨Nat.le_refl _, _, rfl, fun _ _ _ _ _ _ _ _ => trivial⟩)
      fun σ τ hστ => ⟨⟨?_, fun _ _ _ _ _ _ _ _ => trivial⟩, { hστ with }⟩
    rw [hστ.files]
  freshIdentity := by
    refine ⟨fun σ => ⟨⟨_, rfl⟩, Nat.le_succ _⟩, fun σ τ hστ => ?_⟩
    by_cases hn : σ.made < n
    · refine .value ?_ { hστ with made := by rw [hστ.made] }
      rw [hστ.made]
      exact (Identity.later_eq_iff (a := .made σ.made) |>.mpr hn).symm
    · exact .beyond rfl (Nat.lt_succ_of_le (Nat.le_of_not_lt hn))
  takeText := by
    refine .of_value (fun σ => ⟨Nat.le_refl _, σ.texts, fun k => rfl⟩) fun σ τ hστ => ⟨?_, ?_⟩
    · rw [hστ.texts]
      exact fun k => rfl
    · exact { hστ with texts := by rw [hστ.texts] }
  newFrame p _ _ hbs := by
    refine .of_value (fun σ => ⟨Nat.le_refl _, _, rfl⟩) fun σ τ hστ => ⟨hστ.frames.size.symm, ?_⟩
    exact { hστ with frames := hστ.frames.push (Frame.like_of_bindings (some p) hbs) }
  bindIn i name _ _ _ hv := by
    refine .of_value (fun σ => ⟨Nat.le_refl _, _, rfl⟩) fun σ τ hστ => ⟨rfl, ?_⟩
    exact { hστ with frames := hστ.frames.bind i name hv }
  lookup i name s s' hname hs := by
    refine ⟨fun σ => ?_, fun σ τ hστ => ?_⟩
    · unfold Action.lookup
      cases σ.frames.lookup name i with
      | none => exact Nat.le_refl σ.made
      | some v => exact ⟨v.exists_later n [], Nat.le_refl σ.made⟩
    · unfold Action.lookup
      rcases cases_of_rel (hστ.frames.lookup hname i) with ⟨hv, hv'⟩ | ⟨v, v', hv, hv', hlike⟩
      · rw [hv, hv']
        exact .error hστ
      · rw [hv, hv']
        exact .value hlike hστ
  root i := .of_value (fun σ => ⟨Nat.le_refl _, _, rfl⟩)
    fun _ _ hστ => ⟨(hστ.frames.root i).symm, hστ⟩

/-! ## Evaluation -/

/-- All identities in the value and in the state were given out. -/
def Ending.Issued : Ending Value → Prop
  | .value v σ => v.Issued σ.made ∧ σ.Issued σ.made
  | .error _ σ => σ.Issued σ.made
  | .cutShort => True

/-- The two sides have given out equally many, so that it is enough to know this of one. -/
theorem Ending.Like.issued {n : Nat} {log : List Event} {r r' : Ending Value}
    (h : r.Like (.later n log) (Value.Like (.later n log)) r') (hr' : r'.Issued) : r.Issued := by
  cases h with
  | value hvw hστ =>
      have hm := hστ.made 0
      exact ⟨hvw.issued hm hr'.1, hστ.frames.issued hm hr'.2⟩
  | error _ hστ => exact hστ.frames.issued (hστ.made 0) hr'
  | cutShort => trivial

theorem Ending.Counts.le {P : α → Prop} {σ σ' : State} {r : Ending α} (h : r.Counts σ P)
    (hσ' : r.state? = some σ') : σ.made ≤ σ'.made := by
  cases r with
  | value a σ₁ =>
      cases hσ'
      exact h.2
  | error e σ₁ =>
      cases hσ'
      exact h
  | cutShort => cases hσ'

/-- Evaluation uses the identities that were given out and gives out others. -/
theorem Eval.Ends.issued {s : Settings} {level : Nat} {e : Value} {i : FrameId} {σ : State}
    {r : Ending Value} (h : Ends s level e i σ r) (hσ : σ.Issued σ.made)
    (he : e.Issued σ.made) : r.Issued := by
  obtain ⟨hr, budget, rfl⟩ := h
  have hagree : ∀ n, e.Issued n → Action.Abreast (.later n []) n (Value.Like _)
      (nested s budget level e i) (nested s budget level e i) := fun n he =>
    like_nested (C := .abreast n) ⟨fun _ => trivial, fun _ _ _ => .cutShort _⟩ s budget level e e i
      (he.like [])
  obtain ⟨σ', hσ'⟩ := Ending.exists_state hr
  -- How many identities are given out until the end is known from the end.
  have hle : σ.made ≤ σ'.made := ((hagree σ.made he).counts σ).le hσ'
  have hends := (hagree σ'.made (he.mono fun _ ha => ha.mono hle)).ends σ σ
    ⟨rfl, rfl, rfl, (hσ.mono hle).frames []⟩
  generalize nested s budget level e i σ = r at hσ' hends ⊢
  cases r with
  | value v σ₁ =>
      cases hσ'
      cases hends with
      | value hvv hσσ => exact ⟨Value.issued_of_like hvv, State.issued_of_like hσσ.frames⟩
      | beyond hr hn =>
          cases hr
          exact absurd hn (Nat.lt_irrefl _)
  | error err σ₁ =>
      cases hσ'
      cases hends with
      | error hσσ => exact State.issued_of_like hσσ.frames
      | beyond hr hn =>
          cases hr
          exact absurd hn (Nat.lt_irrefl _)
  | cutShort => trivial

/-- At the start of a session no identity is in use. -/
theorem Session.issued_start (files : Files) : (start files).Issued 0 := by
  intro i f name v hf hv
  obtain ⟨p, rfl⟩ := primitive_of_bound hf hv
  exact trivial

end DualScope
