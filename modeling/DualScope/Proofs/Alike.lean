import DualScope.Proofs.Steps

/-!
# Expressions in place of one another

Two expressions are evaluated alike if one may stand in place of the other: both evaluations end,
in the same state and with the same error or with values that match, or neither does, and the same
events go out of both in the same order, whether they end or not.

Most often the two need not do so with the same budget. One of them is some steps behind the other,
for it has to find its way to what the other one does at once. So they are compared where they are
interrupted: all that the first one does with any budget the second one does with some other one,
until the first one is interrupted. A larger budget for the second one makes no difference, since a
run with more of it goes the same way and only further.
-/

namespace DualScope

/-- Both end in the same state, with the same error or with values that `P` relates. -/
inductive Ending.Matches (P : α → β → Prop) : Ending α → Ending β → Prop
  | value {a : α} {b : β} (σ : State) : P a b → Matches P (.value a σ) (.value b σ)
  | error (e : EvalError) (σ : State) : Matches P (.error e σ) (.error e σ)

theorem Ending.Matches.flip {P : α → β → Prop} {r : Ending β} {r' : Ending α}
    (h : r.Matches (fun b a => P a b) r') : r'.Matches P r := by
  cases h with
  | value σ hab => exact .value σ hab
  | error e σ => exact .error e σ

namespace Action.Parts

variable {p : Parting} {P Q : α → β → Prop}

theorem imp {x : Action α} {y : Action β} (h : x.Parts p P y) (hPQ : ∀ a b, P a b → Q a b) :
    x.Parts p Q y where
  ends := h.ends
  left σ := by
    have hleft := h.left σ
    generalize x σ = r at hleft ⊢
    cases r with
    | value a σ' => exact ⟨hleft.1.imp fun b => hPQ a b, hleft.2⟩
    | error e σ' => exact hleft
    | cutShort => trivial
  right σ := by
    have hright := h.right σ
    generalize y σ = r at hright ⊢
    cases r with
    | value b σ' => exact ⟨hright.1.imp fun a => hPQ a b, hright.2⟩
    | error e σ' => exact hright
    | cutShort => trivial
  parts σ := by
    have hparts := h.parts σ
    generalize x σ = r at hparts ⊢
    generalize y σ = r' at hparts ⊢
    cases hparts with
    | cutShort => exact .cutShort _
    | value hab hclean => exact .value (hPQ _ _ hab) hclean
    | error hclean => exact .error hclean
    | pending he hclean hlog => exact .pending he hclean hlog
    | stopped hev hclean hlog hlog' => exact .stopped hev hclean hlog hlog'

theorem pure {a : α} {b : β} (h : P a b) : (Pure.pure a : Action α).Parts p P (Pure.pure b) :=
  .of_eq fun σ => .inl ⟨a, b, σ, rfl, rfl, h, rfl⟩

end Action.Parts

namespace Eval

variable {s : Settings} {level : Nat}

/-! ## Two interrupted runs -/

theorem grows_runOn (mark : String) (s : Settings) (budget level : Nat) (e : Value) (i : FrameId)
    (σ : State) :
    (runOn (interrupted mark) s budget level e i σ).Grows σ fun v => ∃ w : Value, v.Like .same w :=
  ((parts_run rfl (Nat.le_refl _) (.inr rfl) (parts_cutShort (.atMark mark) mark) budget level)
    e e i e.like_same).left σ

theorem parts_nestedOn_of_runOn {mark : String} {budget budget' : Nat}
    (h : (Accord.parting (.atMark mark)).Evaluations (runOn (interrupted mark) s budget (level + 1))
      (runOn (interrupted mark) s budget' (level + 1))) :
    (Accord.parting (.atMark mark)).Evaluations (nestedOn (interrupted mark) s budget level)
      (nestedOn (interrupted mark) s budget' level) := by
  by_cases hl : level < s.limit
  · rw [nestedOn_of_lt hl, nestedOn_of_lt hl]
    exact h
  · rw [nestedOn_of_le (Nat.le_of_not_lt hl), nestedOn_of_le (Nat.le_of_not_lt hl)]
    exact fun _ _ _ _ => .fail (.tooDeep s.limit)

/-- Of two runs that are interrupted, the one with the larger budget goes the way of the other one
until that is interrupted. -/
theorem parts_runOn (mark : String) {budget budget' : Nat} (h : budget ≤ budget') (level : Nat) :
    (Accord.parting (.atMark mark)).Evaluations (runOn (interrupted mark) s budget level)
      (runOn (interrupted mark) s budget' level) := by
  induction budget generalizing budget' level with
  | zero =>
      intro e e' i _
      have hgrows := grows_runOn mark s budget' level e' i
      refine ⟨fun σ => nofun, fun σ => List.suffix_cons _ _, fun σ => ?_, fun σ => ?_⟩
      · have hgrow := hgrows σ
        generalize runOn (interrupted mark) s budget' level e' i σ = r at hgrow ⊢
        cases r with
        | value v σ' => exact ⟨⟨v, v.like_same⟩, hgrow.2⟩
        | error err σ' => exact hgrow
        | cutShort => trivial
      · refine .stopped rfl (.refl _ σ) ?_ ((hgrows σ).has (List.suffix_refl _))
        rintro _ ⟨⟩
        exact List.suffix_refl _
  | succ budget ih =>
      obtain ⟨budget', rfl⟩ := Nat.exists_eq_add_of_le' (Nat.le_trans (Nat.succ_pos budget) h)
      have hle : budget ≤ budget' := Nat.le_of_succ_le_succ h
      have hnested := parts_nestedOn_of_runOn (ih hle (level + 1))
      intro e e' i he
      rw [runOn_succ, runOn_succ]
      refine like_conclude hnested ?_ i he
      unfold onwardOn
      cases s.strategy with
      | tailCall => exact ih hle level
      | recursive => exact hnested

/-- The same for one expression. -/
theorem parts_runOn_self {P : Value → Value → Prop} (hP : ∀ v, P v v) (mark : String)
    {budget budget' : Nat} (h : budget ≤ budget') (e : Value) (i : FrameId) :
    (runOn (interrupted mark) s budget level e i).Parts (.atMark mark) P
      (runOn (interrupted mark) s budget' level e i) :=
  ((parts_runOn mark h level) e e i e.like_same).imp fun v _ hv =>
    Value.Like.eq Likeness.strict_same hv ▸ hP v

theorem parts_nestedOn_self {P : Value → Value → Prop} (hP : ∀ v, P v v) (mark : String)
    {budget budget' : Nat} (h : budget ≤ budget') (e : Value) (i : FrameId) :
    (nestedOn (interrupted mark) s budget level e i).Parts (.atMark mark) P
      (nestedOn (interrupted mark) s budget' level e i) :=
  ((parts_nestedOn_of_runOn (parts_runOn mark h (level + 1))) e e i e.like_same).imp fun v _ hv =>
    Value.Like.eq Likeness.strict_same hv ▸ hP v

theorem interrupted_ends (mark : String) (s : Settings) (budget level : Nat) (e : Value)
    (i : FrameId) (σ : State) : nestedOn (interrupted mark) s budget level e i σ ≠ .cutShort :=
  (parts_nestedOn_self Eq.refl mark (Nat.le_refl budget) e i).ends σ

/-! ## What goes out first -/

/-- These events go out of the evaluation before all others, newest first, whether it ends or
not. -/
def Sends (s : Settings) (level : Nat) (e : Value) (i : FrameId) (σ : State)
    (events : List Event) : Prop :=
  ∃ mark budget σ', (nestedOn (interrupted mark) s budget level e i σ).state? = some σ' ∧
    events ++ σ.log <:+ σ'.log ∧ Event.complained mark ∉ events

variable {x y e : Value} {i : FrameId} {σ : State} {r : Ending Value} {events : List Event}

/-- What is in front of the events without the mark, and behind one, is not there. -/
theorem suffix_of_stopped {mark : Event} {new older log : List Event}
    (hmark : mark :: new ++ older <:+ log) (hevents : events ++ older <:+ log)
    (hno : mark ∉ events) : events ++ older <:+ new ++ older := by
  rcases List.suffix_or_suffix_of_suffix hevents hmark with hsuffix | hsuffix
  · rcases List.suffix_cons_iff.mp hsuffix with heq | hsuffix
    · have hcons : events = mark :: new := List.append_cancel_right heq
      exact absurd (hcons ▸ List.mem_cons_self) hno
    · exact hsuffix
  · have hlong : mark :: new <:+ events := List.suffix_append_self_iff.mp hsuffix
    exact absurd (hlong.subset List.mem_cons_self) hno

end Eval

/-- What goes out of the first action before a mark goes out of the second one as well. -/
theorem Action.Parts.first_events {mark : String} {P : α → β → Prop} {x : Action α} {y : Action β}
    {σ σ' : State} {events : List Event}
    (hparts : x.Parts (.atMark mark) P y) (hσ' : (x σ).state? = some σ')
    (hlog : events ++ σ.log <:+ σ'.log) (hmark : Event.complained mark ∉ events)
    (hy : y σ ≠ .cutShort) : ∃ τ, (y σ).state? = some τ ∧ events ++ σ.log <:+ τ.log := by
  obtain ⟨τ, hτ⟩ := Ending.exists_state hy
  refine ⟨τ, hτ, ?_⟩
  have hparts := hparts.parts σ
  generalize x σ = r at hparts hσ'
  generalize y σ = r' at hparts hτ hy
  cases hparts with
  | cutShort => exact absurd rfl hy
  | value _ _ | error _ =>
      cases hσ'
      cases hτ
      exact hlog
  | pending hno _ _ => exact hno.elim
  | stopped hstop hclean hx hy =>
      cases hstop
      obtain ⟨new, hnew, -⟩ := hclean
      have hstopped := hx σ' hσ'
      rw [hnew] at hstopped
      exact (Eval.suffix_of_stopped hstopped hlog hmark).trans (hnew ▸ hy τ hτ)

namespace Eval

variable {s : Settings} {level : Nat} {x y : Value} {i : FrameId} {σ : State} {r : Ending Value}
  {events : List Event}

/-! ## Evaluations that cover one another -/

/-- Whatever the first expression comes to with a budget, the second one comes to with some other
budget, or the evaluation of the first one is interrupted. For a small budget nothing is asked. -/
def Covers (P : Value → Value → Prop) (s : Settings) (level : Nat) (x y : Value) (i : FrameId) :
    Prop :=
  ∃ least, ∀ mark budget, ∃ budget',
    (nestedOn (interrupted mark) s (budget + least) level x i).Parts (.atMark mark) P
      (nestedOn (interrupted mark) s budget' level y i)

variable {P : Value → Value → Prop}

theorem Covers.ends (h : Covers P s level x y i) (hx : Ends s level x i σ r) :
    ∃ r', Ends s level y i σ r' ∧ r.Matches P r' := by
  obtain ⟨least, h⟩ := h
  obtain ⟨σ', hσ'⟩ := Ending.exists_state hx.1
  obtain ⟨mark, hmark⟩ := exists_mark σ'.log
  obtain ⟨budget, hrun⟩ := hx.exists_budget least
  obtain ⟨budget', hparts⟩ := h mark budget
  have hy := interrupted_ends mark s budget' level y i σ
  have hparts := hparts.parts σ
  rw [nestedOn_of_nested _ hrun hx.1] at hparts
  generalize hr' : nestedOn (interrupted mark) s budget' level y i σ = r' at hparts hy
  have hends : r'.state? = some σ' → Ends s level y i σ r' := fun hσ₁ =>
    ⟨hy, budget', nested_of_unmarked hr' hy fun σ₂ hσ₂ hmem => hmark (by
      rw [hσ₁] at hσ₂
      cases hσ₂
      exact List.mem_of_mem_take hmem)⟩
  cases hparts with
  | cutShort => exact absurd rfl hy
  | value hab _ => exact ⟨_, hends hσ', .value _ hab⟩
  | error _ => exact ⟨_, hends hσ', .error _ _⟩
  | pending hno _ _ => exact hno.elim
  | stopped hstop _ hlog _ =>
      cases hstop
      exact absurd ((hlog σ' hσ').subset List.mem_cons_self) hmark

theorem Covers.sends (h : Covers P s level x y i) (hx : Sends s level x i σ events) :
    Sends s level y i σ events := by
  obtain ⟨least, h⟩ := h
  obtain ⟨mark, budget, σ₀, hσ₀, hlog₀, hmark⟩ := hx
  obtain ⟨budget', hparts⟩ := h mark budget
  -- The budget that shows the events may be a small one, and a larger one shows them too.
  have hmore : (nestedOn (interrupted mark) s budget level x i).Parts (.atMark mark) (· = ·)
      (nestedOn (interrupted mark) s (budget + least) level x i) :=
    parts_nestedOn_self Eq.refl mark (Nat.le_add_right _ _) x i
  obtain ⟨σ₁, hσ₁, hlog₁⟩ := hmore.first_events hσ₀ hlog₀ hmark (hparts.ends σ)
  obtain ⟨σ₂, hσ₂, hlog₂⟩ := hparts.first_events hσ₁ hlog₁ hmark
    (interrupted_ends mark s budget' level y i σ)
  exact ⟨mark, budget', σ₂, hσ₂, hlog₂, hmark⟩

/-- The first expression is evaluated like the second one: they come to matching ends, or both to
none, and the same goes out. -/
structure Alike (P : Value → Value → Prop) (s : Settings) (level : Nat) (x y : Value)
    (i : FrameId) (σ : State) : Prop where
  forth : ∀ r, Ends s level x i σ r → ∃ r', Ends s level y i σ r' ∧ r.Matches P r'
  back : ∀ r', Ends s level y i σ r' → ∃ r, Ends s level x i σ r ∧ r.Matches P r'
  sends : ∀ events, Sends s level x i σ events ↔ Sends s level y i σ events

theorem Covers.alike (h : Covers P s level x y i) (h' : Covers (fun v w => P w v) s level y x i)
    (σ : State) : Alike P s level x y i σ where
  forth _ hx := h.ends hx
  back _ hy := by
    obtain ⟨r, hr, hmatches⟩ := h'.ends hy
    exact ⟨r, hr, hmatches.flip⟩
  sends _ := ⟨h.sends, h'.sends⟩

/-- Where there is no room, all expressions are refused. -/
theorem Covers.of_le (h : s.limit ≤ level) (x y : Value) (i : FrameId) : Covers P s level x y i := by
  refine ⟨0, fun mark budget => ⟨0, ?_⟩⟩
  rw [nestedOn_of_le h, nestedOn_of_le h]
  exact .of_eq fun _ => .inr ⟨_, rfl, rfl⟩

/-- Both evaluate the same expression first, and what the first one makes of the value the second
one covers with one step more. -/
theorem Covers.of_bind {X Y : Evaluation → Nat → Value → Action Value} {t : Value}
    (hx : ∀ last budget, nestedOn last s (budget + 2) level x i =
      nestedOn last s (budget + 1) (level + 1) t i >>= X last budget)
    (hy : ∀ last budget, nestedOn last s (budget + 2) level y i =
      nestedOn last s (budget + 1) (level + 1) t i >>= Y last budget)
    (h : ∀ mark budget v, (X (interrupted mark) budget v).Parts (.atMark mark) P
      (Y (interrupted mark) (budget + 1) v)) : Covers P s level x y i := by
  refine ⟨2, fun mark budget => ⟨budget + 3, ?_⟩⟩
  rw [hx, hy]
  refine (parts_nestedOn_self Eq.refl mark (Nat.le_succ _) t i).bind ?_
  rintro v _ rfl
  exact h mark budget v

/-- The first one finds its way to the second one in a step. -/
theorem Covers.of_succ (hP : ∀ v, P v v)
    (h : ∀ last budget, nestedOn last s (budget + 1) level x i = nestedOn last s budget level y i) :
    Covers P s level x y i := by
  refine ⟨1, fun mark budget => ⟨budget, ?_⟩⟩
  rw [h]
  exact parts_nestedOn_self hP mark (Nat.le_refl _) y i

theorem Covers.to_succ (hP : ∀ v, P v v)
    (h : ∀ last budget, nestedOn last s (budget + 1) level x i = nestedOn last s budget level y i) :
    Covers P s level y x i := by
  refine ⟨0, fun mark budget => ⟨budget + 1, ?_⟩⟩
  rw [h]
  exact parts_nestedOn_self hP mark (Nat.le_refl _) y i

end Eval

end DualScope
