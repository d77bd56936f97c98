import DualScope.Proofs.Depth
import DualScope.Proofs.Likeness.Parting
import Mathlib.Data.Fintype.EquivFin

/-!
# What goes out of an evaluation

An evaluation that never ends leaves no state, and still it may print and report. With any
budget it is cut short, which tells nothing of it. So let it be *interrupted* instead: where the
budget is used up, a mark goes out and the evaluation fails there. How a program goes on behind
a mark, where a `load` has caught the failure, means nothing. But what went out before the first
mark goes out of the evaluation itself, and everything that does goes out with some budget.

For an evaluation that ends this is nothing new: what goes out of it is what is in the log at
its end. An evaluation is *unhindered* by its limit if it does not end with `tooDeep` and no
report of this error goes out of it. Then it ends if it does under a higher limit: the run under
the lower limit could only part from the other one with this error, which would be its outcome or
would be reported.
-/

namespace DualScope

namespace Eval

/-! ## Evaluation beyond the budget -/

/-- Evaluation in which `last` does what the budget does not suffice for. -/
def runOn (last : Evaluation) (s : Settings) : Nat → Nat → Evaluation
  | 0, _ => last
  | budget + 1, level => fun e i =>
    let nested : Evaluation :=
      if s.limit ≤ level then fun _ _ => .fail (.tooDeep s.limit)
      else runOn last s budget (level + 1)
    step nested e i >>= Next.conclude (match s.strategy with
      | .tailCall => runOn last s budget level
      | .recursive => nested)

def nestedOn (last : Evaluation) (s : Settings) (budget level : Nat) : Evaluation :=
  if s.limit ≤ level then fun _ _ => .fail (.tooDeep s.limit)
  else runOn last s budget (level + 1)

def onwardOn (last : Evaluation) (s : Settings) (budget level : Nat) : Evaluation :=
  match s.strategy with
  | .tailCall => runOn last s budget level
  | .recursive => nestedOn last s budget level

section

variable {last : Evaluation} {s : Settings} {budget level : Nat}

theorem runOn_succ (last : Evaluation) (s : Settings) (budget level : Nat) (e : Value)
    (i : FrameId) :
    runOn last s (budget + 1) level e i =
      step (nestedOn last s budget level) e i >>= Next.conclude (onwardOn last s budget level) := by
  rw [runOn, onwardOn, nestedOn]

theorem nestedOn_of_lt (h : level < s.limit) :
    nestedOn last s budget level = runOn last s budget (level + 1) :=
  if_neg (Nat.not_le_of_lt h)

theorem nestedOn_of_le (h : s.limit ≤ level) :
    nestedOn last s budget level = fun _ _ => .fail (.tooDeep s.limit) :=
  if_pos h

theorem nestedOn_eq_nested (h : runOn last s budget (level + 1) = run s budget (level + 1)) :
    nestedOn last s budget level = nested s budget level := by
  by_cases hl : level < s.limit
  · rw [nestedOn_of_lt hl, nested_of_lt hl, h]
  · rw [nestedOn_of_le (Nat.le_of_not_lt hl), nested_of_le (Nat.le_of_not_lt hl)]

/-- To be cut short where the budget is used up is evaluation as it is. -/
theorem runOn_cutShort (s : Settings) (budget level : Nat) :
    runOn (fun _ _ => .cutShort) s budget level = run s budget level := by
  induction budget generalizing level with
  | zero => rfl
  | succ budget ih =>
      have honward : onwardOn (fun _ _ => .cutShort) s budget level = onward s budget level := by
        unfold onwardOn onward
        cases s.strategy with
        | tailCall => exact ih level
        | recursive => exact nestedOn_eq_nested (ih (level + 1))
      funext e i
      rw [runOn_succ, run_eq_bind, honward, nestedOn_eq_nested (ih (level + 1))]

theorem nestedOn_cutShort (s : Settings) (budget level : Nat) :
    nestedOn (fun _ _ => .cutShort) s budget level = nested s budget level :=
  nestedOn_eq_nested (runOn_cutShort s budget (level + 1))

end

/-- The mark goes out, and there is no value. -/
def interrupted (mark : String) : Evaluation := fun _ _ => do
  Action.complain mark
  .fail .missingExpression

end Eval

/-- Two runs from the same state as long as no mark goes out. -/
def Pairing.unmarked (mark : String) : Pairing .any :=
  .sameState .any (fun _ => True) (· ≠ .complained mark) (fun _ => False) (fun _ => trivial)
    fun _ h => h

/-- Two runs part where the mark goes out. -/
def Parting.atMark (mark : String) : Parting where
  stop := (· = .complained mark)
  pending _ := False
  stop_of_pending _ _ _ h := h.elim

/-- Two runs part where the first one is refused by its limit. -/
def Parting.atLimit : Parting where
  stop ev := ev.isTooDeep = true
  pending e := e.isTooDeep = true
  stop_of_pending _ _ _ h := h

/-! ## Evaluations to the same budget -/

namespace Pairing.Evaluations

open Eval

variable {D : Discipline} {P : Pairing D} {last last' : Evaluation}

theorem nestedOn_of_runOn {s : Settings} {budget level : Nat}
    (h : P.Evaluations (runOn last s budget (level + 1)) (runOn last' s budget (level + 1))) :
    P.Evaluations (nestedOn last s budget level) (nestedOn last' s budget level) := by
  by_cases hl : level < s.limit
  · rw [nestedOn_of_lt hl, nestedOn_of_lt hl]
    exact h
  · rw [nestedOn_of_le (Nat.le_of_not_lt hl), nestedOn_of_le (Nat.le_of_not_lt hl)]
    exact fun e i σ τ h _ => .fail h _ _

/-- Evaluations are in lockstep if they are where the budget is used up. -/
theorem runOn (h : P.Evaluations last last') (s : Settings) (budget level : Nat) :
    P.Evaluations (runOn last s budget level) (runOn last' s budget level) := by
  induction budget generalizing level with
  | zero => exact h
  | succ budget ih =>
      intro e i σ τ hat he
      have hnested := nestedOn_of_runOn (ih (level + 1))
      rw [runOn_succ, runOn_succ]
      refine .conclude hat (hnested.step hat he) (fun v σ₁ τ₁ h₁ hv => .pure h₁ hv) ?_
      unfold onwardOn
      cases s.strategy with
      | tailCall => exact fun e j σ₁ τ₁ h₁ he => ih level e j σ₁ τ₁ h₁ he
      | recursive => exact fun e j σ₁ τ₁ h₁ he => hnested e j σ₁ τ₁ h₁ he

theorem nestedOn (h : P.Evaluations last last') (s : Settings) (budget level : Nat) :
    P.Evaluations (nestedOn last s budget level) (nestedOn last' s budget level) :=
  nestedOn_of_runOn (h.runOn s budget (level + 1))

end Pairing.Evaluations

namespace Eval

variable {s : Settings} {budget level : Nat} {e : Value} {i : FrameId} {σ : State}
  {r : Ending Value} {mark : String}

/-- What is to be done where the budget is used up does not matter where it is not. -/
theorem nestedOn_of_nested (last : Evaluation) (h : nested s budget level e i σ = r)
    (hr : r ≠ .cutShort) : nestedOn last s budget level e i σ = r := by
  subst h
  have hlast : (Pairing.all .any).Evaluations (fun _ _ => .cutShort) last :=
    fun _ _ _ _ _ _ => ⟨trivial, trivial⟩
  have hall := hlast.nestedOn s budget level
  rw [nestedOn_cutShort] at hall
  rcases hall.agrees (Pairing.settles_all hr) with ⟨_, _, _, hno⟩ | heq
  · exact absurd hno id
  · exact heq

/-- An evaluation that leaves no mark was not interrupted. -/
theorem nested_of_unmarked (h : nestedOn (interrupted mark) s budget level e i σ = r)
    (hr : r ≠ .cutShort)
    (hmark : ∀ σ', r.state? = some σ' → Event.complained mark ∉ σ'.since σ) :
    nested s budget level e i σ = r := by
  subst h
  have hlast : (Pairing.unmarked mark).Evaluations (interrupted mark) (fun _ _ => .cutShort) := by
    intro e i σ τ hat _
    refine ⟨Discipline.any.reaches_emit i (.complained mark) hat.sound, ?_⟩
    intro haccepts
    exact absurd rfl haccepts.emitted
  have hnested := hlast.nestedOn s budget level
  rw [nestedOn_cutShort] at hnested
  have hsettles : (Pairing.unmarked mark).Settles σ (nestedOn (interrupted mark) s budget level e i σ) := by
    generalize nestedOn (interrupted mark) s budget level e i σ = r at hr hmark ⊢
    cases r with
    | value v σ' => exact fun ev hev heq => hmark σ' rfl (heq ▸ hev)
    | error err σ' => exact ⟨fun ev hev heq => hmark σ' rfl (heq ▸ hev), trivial⟩
    | cutShort => exact hr rfl
  rcases hnested.agrees hsettles with ⟨_, _, _, hno⟩ | heq
  · exact absurd hno id
  · exact heq

end Eval

/-! ## Evaluations that part -/

namespace Eval

variable {s s' : Settings} {p : Parting}

theorem grows_run (s : Settings) (budget level : Nat) (e : Value) (i : FrameId) (σ : State) :
    (run s budget level e i σ).Grows σ fun v => ∃ w : Value, w.Like .same v := by
  have hall : (Pairing.all .any).Evaluations (run s budget level) (run s budget level) :=
    .run_budget (Nat.le_refl _)
  have hallows := (hall e i σ σ ⟨Discipline.any_sound σ, rfl, trivial⟩
    (Discipline.any_fine _ e)).allows
  cases h : run s budget level e i σ with
  | value v σ' =>
      rw [h] at hallows
      exact ⟨⟨v, v.like_same⟩, hallows.1.1.log⟩
  | error err σ' =>
      rw [h] at hallows
      exact hallows.1.log
  | cutShort => trivial

theorem grows_nested (s : Settings) (budget level : Nat) (e : Value) (i : FrameId) (σ : State) :
    (nested s budget level e i σ).Grows σ fun v => ∃ w : Value, w.Like .same v := by
  by_cases hl : level < s.limit
  · rw [nested_of_lt hl]
    exact grows_run s budget (level + 1) e i σ
  · rw [nested_of_le (Nat.le_of_not_lt hl)]
    exact List.suffix_refl _

theorem parts_nested_of_run {last : Evaluation} {budget budget' level : Nat}
    (hlimit : s.limit ≤ s'.limit)
    (hrefused : p.pending (.tooDeep s.limit) ∨ s'.limit = s.limit)
    (h : (Accord.parting p).Evaluations (runOn last s budget (level + 1))
      (run s' budget' (level + 1))) :
    (Accord.parting p).Evaluations (nestedOn last s budget level) (nested s' budget' level) := by
  by_cases hl : level < s.limit
  · rw [nestedOn_of_lt hl, nested_of_lt (Nat.lt_of_lt_of_le hl hlimit)]
    exact h
  · rw [nestedOn_of_le (Nat.le_of_not_lt hl)]
    intro e e' i _
    rcases hrefused with hpending | heq
    · -- The first run is refused here, and this is where they part.
      refine ⟨fun σ => nofun, fun σ => List.suffix_refl _, grows_nested s' budget' level e' i,
        fun σ => ?_⟩
      exact .pending hpending (.refl p σ) ((grows_nested s' budget' level e' i σ).has
        (List.suffix_refl _))
    · rw [nested_of_le (heq ▸ Nat.le_of_not_lt hl), heq]
      exact .fail (.tooDeep s.limit)

/-- An evaluation that is interrupted parts from every other one. -/
theorem parts_interrupted {mark : String} (h : p.stop (.complained mark)) (s : Settings)
    (more level : Nat) : (Accord.parting p).Evaluations (interrupted mark) (run s more level) := by
  intro e e' i _
  refine ⟨fun σ => nofun, fun σ => List.suffix_cons _ _, grows_run s more level e' i, fun σ => ?_⟩
  refine .stopped h (.refl p σ) ?_ ((grows_run s more level e' i σ).has (List.suffix_refl _))
  rintro _ ⟨⟩
  exact List.suffix_refl _

theorem parts_cutShort (p : Parting) (mark : String) {s : Settings} (level : Nat) :
    (Accord.parting p).Evaluations (interrupted mark) (run s 0 level) :=
  fun _ _ _ _ => ⟨fun _ => nofun, fun _ => List.suffix_cons _ _, fun _ => trivial,
    fun _ => .cutShort _⟩

/-- A run and one with a larger budget, under the same limit or a higher one, are the same until
they part. -/
theorem parts_run {last : Evaluation} {more : Nat} (hs : s'.strategy = s.strategy)
    (hlimit : s.limit ≤ s'.limit)
    (hrefused : p.pending (.tooDeep s.limit) ∨ s'.limit = s.limit)
    (hlast : ∀ level, (Accord.parting p).Evaluations last (run s' more level))
    (budget level : Nat) :
    (Accord.parting p).Evaluations (runOn last s budget level) (run s' (more + budget) level) := by
  induction budget generalizing level with
  | zero => exact hlast level
  | succ budget ih =>
      intro e e' i he
      have hnested := parts_nested_of_run hlimit hrefused (ih (level + 1))
      rw [runOn_succ, ← Nat.add_assoc, run_eq_bind]
      refine like_conclude hnested ?_ i he
      unfold onwardOn onward
      rw [hs]
      cases s.strategy with
      | tailCall => exact ih level
      | recursive => exact hnested

theorem parts_nested {last : Evaluation} {more : Nat} (hs : s'.strategy = s.strategy)
    (hlimit : s.limit ≤ s'.limit)
    (hrefused : p.pending (.tooDeep s.limit) ∨ s'.limit = s.limit)
    (hlast : ∀ level, (Accord.parting p).Evaluations last (run s' more level))
    (budget level : Nat) :
    (Accord.parting p).Evaluations (nestedOn last s budget level)
      (nested s' (more + budget) level) :=
  parts_nested_of_run hlimit hrefused (parts_run hs hlimit hrefused hlast budget (level + 1))

end Eval

/-! ## What goes out -/

namespace Eval

/-- The event goes out of the evaluation, whether that ends or not: with some budget it is in the
log, and what went out until then is no mark of an interruption. -/
def Emits (s : Settings) (level : Nat) (e : Value) (i : FrameId) (σ : State) (ev : Event) : Prop :=
  ∃ mark budget σ' newer older,
    (nestedOn (interrupted mark) s budget level e i σ).state? = some σ' ∧
      σ'.log = newer ++ (ev :: older) ++ σ.log ∧ Event.complained mark ∉ ev :: older

/-- Neither the outcome of the evaluation nor any report that goes out of it is `tooDeep`. -/
structure Unhindered (s : Settings) (level : Nat) (e : Value) (i : FrameId) (σ : State) :
    Prop where
  outcome : ∀ err σ', Ends s level e i σ (.error err σ') → err.isTooDeep = false
  reports : ∀ ev, Emits s level e i σ ev → ev.isTooDeep = false

variable {level : Nat} {e : Value} {i : FrameId} {σ σ' : State} {r : Ending Value} {ev : Event}

theorem exists_mark (log : List Event) : ∃ mark, Event.complained mark ∉ log := by
  obtain ⟨mark, hmark⟩ := Infinite.exists_notMem_finset (log.filterMap Event.complaint?).toFinset
  refine ⟨mark, fun h => hmark ?_⟩
  rw [List.mem_toFinset, List.mem_filterMap]
  exact ⟨_, h, rfl⟩

theorem Ends.log (h : Ends s level e i σ r) (hσ' : r.state? = some σ') :
    σ'.log = σ'.since σ ++ σ.log := by
  obtain ⟨-, budget, rfl⟩ := h
  have hgrows : σ.log <:+ σ'.log :=
    (grows_nested s budget level e i σ).has (List.suffix_refl _) σ' hσ'
  obtain ⟨new, hnew⟩ := hgrows
  rw [State.since_eq hnew.symm, hnew]

/-- Where the mark is not among the last events, it is in front of them. -/
theorem mem_of_split {mark : Event} {above new newer older : List Event}
    (h : above ++ mark :: new = newer ++ ev :: older) (hmark : mark ∉ ev :: older) : ev ∈ new := by
  have hnew : mark :: new <:+ newer ++ ev :: older := ⟨above, h⟩
  have holder : ev :: older <:+ newer ++ ev :: older := List.suffix_append _ _
  rcases List.suffix_or_suffix_of_suffix holder hnew with hsuffix | hsuffix
  · rcases List.suffix_cons_iff.mp hsuffix with heq | hsuffix
    · exact absurd (heq ▸ List.mem_cons_self) hmark
    · exact hsuffix.subset List.mem_cons_self
  · exact absurd (hsuffix.subset List.mem_cons_self) hmark

/-- What goes out of an evaluation that ends is what is in its log. -/
theorem emits_iff_of_ends (h : Ends s level e i σ r) (hσ' : r.state? = some σ') :
    Emits s level e i σ ev ↔ ev ∈ σ'.since σ := by
  have hlog := h.log hσ'
  obtain ⟨hr, enough, hrun⟩ := h
  constructor
  · rintro ⟨mark, budget, σ₁, newer, older, hσ₁, hlog₁, hmark⟩
    have hlast : ∀ l, (Accord.parting (.atMark mark)).Evaluations (interrupted mark) (run s enough l) :=
      parts_interrupted rfl s enough
    have hparts := (parts_nested rfl (Nat.le_refl _) (.inr rfl) hlast budget level e e i
      e.like_same).parts σ
    rw [nested_stable hrun hr (Nat.le_add_right _ _)] at hparts
    generalize nestedOn (interrupted mark) s budget level e i σ = x at hparts hσ₁
    have hsame : σ₁ = σ' → ev ∈ σ'.since σ := by
      rintro rfl
      rw [List.append_cancel_right (hlog.symm.trans hlog₁)]
      exact List.mem_append_right _ List.mem_cons_self
    cases hparts with
    | cutShort => exact absurd rfl hr
    | value _ _ | error _ =>
        cases hσ₁
        cases hσ'
        exact hsame rfl
    | pending hno _ _ => exact hno.elim
    | stopped hstop hclean hx hr' =>
        -- The event is older than the first mark, where the two part.
        cases hstop
        obtain ⟨new, hnew, -⟩ := hclean
        obtain ⟨above, habove⟩ := hx σ₁ hσ₁
        obtain ⟨rest, hrest⟩ := hr' σ' hσ'
        rw [hnew] at habove hrest
        rw [hlog₁, ← List.cons_append, ← List.append_assoc] at habove
        rw [hlog, ← List.append_assoc] at hrest
        have hsplit : above ++ .complained mark :: new = newer ++ ev :: older :=
          List.append_cancel_right habove
        have hnewer : ev ∈ new := mem_of_split hsplit hmark
        rw [← List.append_cancel_right hrest]
        exact List.mem_append_right _ hnewer
  · intro hev
    obtain ⟨newer, older, hsince⟩ := List.append_of_mem hev
    obtain ⟨mark, hmark⟩ := exists_mark σ'.log
    refine ⟨mark, enough, σ', newer, older, ?_, by rw [hlog, hsince], fun hmem => hmark ?_⟩
    · rw [nestedOn_of_nested _ hrun hr, hσ']
    · rw [hlog, hsince]
      exact List.mem_append_left _ (List.mem_append_right _ hmem)

/-- An evaluation that ends is unhindered if it ends in a shallow way. -/
theorem Ends.unhindered_iff (h : Ends s level e i σ r) :
    Unhindered s level e i σ ↔ r.Shallow σ := by
  constructor
  · intro hfree
    have hreports : ∀ σ', r.state? = some σ' → ∀ ev ∈ σ'.since σ, ev.isTooDeep = false :=
      fun σ' hσ' ev hev => hfree.reports ev ((emits_iff_of_ends h hσ').mpr hev)
    cases r with
    | value v σ' => exact hreports σ' rfl
    | error err σ' => exact ⟨hfree.outcome err σ' h, hreports σ' rfl⟩
    | cutShort => exact absurd rfl h.1
  · intro hshallow
    refine ⟨fun err σ' hends => ?_, fun ev hev => ?_⟩
    · cases h.unique hends
      exact hshallow.1
    · cases r with
      | value v σ' => exact hshallow ev ((emits_iff_of_ends h rfl).mp hev)
      | error err σ' => exact hshallow.2 ev ((emits_iff_of_ends h rfl).mp hev)
      | cutShort => exact absurd rfl h.1

/-- An unhindered evaluation ends as it does under a higher limit. -/
theorem Unhindered.ends {limit : Nat} (h : Unhindered s level e i σ) (hlimit : s.limit ≤ limit)
    (hends : Ends ⟨s.strategy, limit⟩ level e i σ r) : Ends s level e i σ r := by
  obtain ⟨σ', hσ'⟩ := Ending.exists_state hends.1
  have hlog := hends.log hσ'
  obtain ⟨hr, budget, hrun⟩ := hends
  obtain ⟨mark, hmark⟩ := exists_mark σ'.log
  -- The evaluation under the lower limit is looked at where the budget is used up. It parts
  -- from the other one where it is refused.
  have hevals : (Accord.parting .atLimit).Evaluations (nestedOn (interrupted mark) s budget level)
      (nested ⟨s.strategy, limit⟩ (0 + budget) level) :=
    parts_nested (by rfl) hlimit (.inl rfl) (parts_cutShort .atLimit mark) budget level
  have hagree := hevals e e i e.like_same
  have hparts := hagree.parts σ
  have hcut := hagree.ends σ
  rw [Nat.zero_add, hrun] at hparts
  have hended : ∀ {r' : Ending Value} {σ₁ : State},
      nestedOn (interrupted mark) s budget level e i σ = r' → r'.state? = some σ₁ →
      σ₁.log <:+ σ'.log → Ends s level e i σ r' := by
    intro r' σ₁ hr' hσ₁ hlog₁
    refine ⟨?_, budget, nested_of_unmarked hr' ?_ ?_⟩
    · rintro rfl
      cases hσ₁
    · rintro rfl
      cases hσ₁
    · intro σ₂ hσ₂ hmem
      rw [hσ₁] at hσ₂
      cases hσ₂
      exact hmark (hlog₁.subset (List.mem_of_mem_take hmem))
  generalize hx : nestedOn (interrupted mark) s budget level e i σ = x at hparts hcut
  cases hparts with
  | cutShort => exact absurd rfl hr
  | value hab _ =>
      cases hab.eq Likeness.strict_same
      exact hended hx rfl (by cases hσ'; exact List.suffix_refl _)
  | error _ => exact hended hx rfl (by cases hσ'; exact List.suffix_refl _)
  | @pending err σ₁ _ hpending hclean hlog₁ =>
      have hout := h.outcome err σ₁ (hended hx rfl (hlog₁ σ' hσ'))
      rw [show err.isTooDeep = true from hpending] at hout
      cases hout
  | @stopped _ _ σ₁ ev hstop hclean hlog₁ hlog₂ =>
      obtain ⟨σ₂, hσ₂⟩ := Ending.exists_state hcut
      obtain ⟨new, hnew, -⟩ := hclean
      obtain ⟨newer, hnewer⟩ := hlog₁ σ₂ hσ₂
      have hemits : Emits s level e i σ ev := by
        refine ⟨mark, budget, σ₂, newer, new, hx ▸ hσ₂, ?_, fun hmem => ?_⟩
        · rw [← hnewer, hnew, List.append_assoc, List.cons_append]
        · rcases List.mem_cons.mp hmem with rfl | hmem
          · cases hstop
          · refine hmark ((hlog₂ σ' hσ').subset ?_)
            rw [hnew]
            exact List.mem_append_left _ hmem
      have hreport := h.reports ev hemits
      rw [show ev.isTooDeep = true from hstop] at hreport
      cases hreport

end Eval

end DualScope
