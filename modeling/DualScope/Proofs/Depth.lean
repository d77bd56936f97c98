import DualScope.Proofs.Ends
import DualScope.Session

/-!
# How deep an evaluation may go

The limit on the depth only ever decides whether an evaluation is refused. So an
evaluation that ends in a shallow way, and that was therefore never refused, is
replayed step for step wherever there is as much room below it: under a higher limit,
and also by the strategy `tailCall`, which stays at a level where `recursive` goes one
deeper. Nothing is ever as deep as a budget is large, which gives the converse: under
a limit that leaves the room for all its budget, an evaluation comes to the same end
whatever the strategy.

Under a lower limit the evaluation may be refused somewhere below. As long as there is
no `load` on the way, which would swallow it, this error goes all the way up.
-/

namespace DualScope

namespace Pairing

open Eval

def shallow : Pairing .any :=
  sameState .any (fun e => e.isTooDeep = false) (fun e => e.isTooDeep = false) (fun _ => False)
    (fun h => h) (fun _ h => h)

/-- Two runs that agree on shallow endings with no `load` on the way, except that the other
one may be refused at its limit. -/
def refusing (limit : Nat) : Pairing .any :=
  sameState .any (fun e => e.isTooDeep = false)
    (fun e => e.isTooDeep = false ∧ e.isRequest = false) (fun e => e = .tooDeep limit)
    (fun h => h.1) (fun h => absurd h.2 Bool.noConfusion)

section

variable {s s' : Settings} {budget budget' level level' : Nat}

theorem not_error_shallow (limit : Nat) : ¬ shallow.error (.tooDeep limit) :=
  Bool.noConfusion

theorem not_error_refusing (limit limit' : Nat) : ¬ (refusing limit').error (.tooDeep limit) :=
  Bool.noConfusion

/-! ## More room -/

theorem nested_raised (hroom : s.limit - level ≤ s'.limit - level')
    (hrun : s.limit - (level + 1) ≤ s'.limit - (level' + 1) →
      shallow.Evaluations (run s budget (level + 1)) (run s' budget' (level' + 1))) :
    shallow.Evaluations (nested s budget level) (nested s' budget' level') := by
  refine .nested_of_run (not_error_shallow _) ?_
  intro hl
  have hl' : level' < s'.limit := by omega
  rw [nested_of_lt hl']
  exact hrun (by omega)

/-- Where there is as much room, a run agrees with one of the same strategy, and with one
that goes less deep, if that has the same budget or a larger one. -/
theorem run_raised (hs : s'.strategy = s.strategy ∨ s'.strategy = .tailCall)
    (hbudget : budget ≤ budget') (hroom : s.limit - level ≤ s'.limit - level') :
    shallow.Evaluations (run s budget level) (run s' budget' level') := by
  induction budget generalizing budget' level level' with
  | zero => exact .run_zero _
  | succ budget ih =>
      obtain ⟨budget', rfl⟩ : ∃ b, budget' = b + 1 := ⟨budget' - 1, by omega⟩
      have hbudget' : budget ≤ budget' := by omega
      have hnested : shallow.Evaluations (nested s budget level) (nested s' budget' level') :=
        nested_raised hroom (ih hbudget')
      refine .run_succ hnested ?_
      unfold onward
      cases hs' : s'.strategy with
      | recursive =>
          rw [hs'] at hs
          rcases hs with hs | hs
          · rw [← hs]
            exact hnested
          · cases hs
      | tailCall =>
          cases s.strategy with
          | tailCall => exact ih hbudget' hroom
          | recursive =>
              -- The other run does not go deeper here, and so has room to spare.
              exact .nested_of_run (not_error_shallow _) fun hl => ih hbudget' (by omega)

/-- Where there is room for every step of its budget, a run agrees with one of any strategy. -/
theorem run_roomy (hroom : budget ≤ s'.limit - level') :
    shallow.Evaluations (run s budget level) (run s' budget level') := by
  induction budget generalizing level level' with
  | zero => exact .run_zero _
  | succ budget ih =>
      have hl' : level' < s'.limit := by omega
      -- What the first run does next, at this level or a level deeper, can be done deeper.
      have hnext : ∀ {k}, k ≤ level' + 1 →
          shallow.Evaluations (run s budget level) (run s' budget k) ∧
            shallow.Evaluations (nested s budget level) (run s' budget k) := by
        intro k hk
        exact ⟨ih (by omega), .nested_of_run (not_error_shallow _) fun _ => ih (by omega)⟩
      have hdeeper := hnext (Nat.le_refl _)
      have hbeside := hnext (Nat.le_succ _)
      rw [← nested_of_lt hl'] at hdeeper
      refine .run_succ hdeeper.2 ?_
      unfold onward
      cases s.strategy with
      | recursive =>
          cases s'.strategy with
          | recursive => exact hdeeper.2
          | tailCall => exact hbeside.2
      | tailCall =>
          cases s'.strategy with
          | recursive => exact hdeeper.1
          | tailCall => exact hbeside.1

/-! ## Less room -/

theorem nested_lowered {limit' : Nat}
    (hrun : (refusing limit').Evaluations (run s budget (level + 1))
      (run ⟨s.strategy, limit'⟩ budget (level + 1))) :
    (refusing limit').Evaluations (nested s budget level)
      (nested ⟨s.strategy, limit'⟩ budget level) := by
  by_cases hl' : level < limit'
  · have hdeeper : nested ⟨s.strategy, limit'⟩ budget level =
        run ⟨s.strategy, limit'⟩ budget (level + 1) := nested_of_lt hl' budget
    rw [hdeeper]
    exact .nested_of_run (not_error_refusing _ _) fun _ => hrun
  · exact .nested_escaped (.nested_budget (Nat.le_refl _)) (Nat.le_of_not_lt hl') rfl

theorem run_lowered (limit' : Nat) :
    (refusing limit').Evaluations (run s budget level)
      (run ⟨s.strategy, limit'⟩ budget level) := by
  induction budget generalizing level with
  | zero => exact .run_zero _
  | succ budget ih =>
      have hnested : (refusing limit').Evaluations (nested s budget level)
          (nested ⟨s.strategy, limit'⟩ budget level) := nested_lowered ih
      refine .run_succ hnested ?_
      obtain ⟨strategy, limit⟩ := s
      cases strategy with
      | recursive => exact hnested
      | tailCall => exact ih

end

theorem settles_shallow {σ : State} {r : Ending α} (h : r.Shallow σ) : shallow.Settles σ r := by
  cases r with
  | value a σ' => exact h
  | error e σ' => exact ⟨h.2, h.1⟩
  | cutShort => exact h

theorem settles_refusing (limit : Nat) {σ : State} {r : Ending α} (h : r.Shallow σ)
    (hload : r.LoadsNothing σ) : (refusing limit).Settles σ r := by
  cases r with
  | value a σ' => exact fun e he => ⟨h e he, hload σ' rfl e he⟩
  | error e σ' => exact ⟨fun e he => ⟨h.2 e he, hload σ' rfl e he⟩, h.1⟩
  | cutShort => exact h

end Pairing

/-! ## What the limit decides -/

namespace Eval

open Pairing

/-- `(if #t (let ((x #t)) (newline) (cdr ())))`, with the procedures themselves for their
names. -/
def sample : Value :=
  .ofList [.symbol "if" .none, .boolean true .none,
    .ofList [.symbol "let" .none,
      .ofList [.ofList [.symbol "x" .none, .boolean true .none]],
      .ofList [.primitive .newline .none],
      .ofList [.primitive .cdr .none, .nil .none]]]

def sampleStart : State :=
  Session.start fun _ => .error .notFound

def sampleEnd : Ending Value :=
  .error (.primitive .cdr (.wrongType 0 .pair .nil) .none)
    ((sampleStart.push ⟨some 0, [("x", .boolean true .none)]⟩).emit (.wrote "\n"))

theorem sample_ends_recursive : Ends ⟨.recursive, 4⟩ 0 sample 0 sampleStart sampleEnd :=
  ⟨by simp [sampleEnd], 20, rfl⟩

theorem sample_ends_tailCall : Ends ⟨.tailCall, 3⟩ 0 sample 0 sampleStart sampleEnd :=
  ⟨by simp [sampleEnd], 20, rfl⟩

theorem shallow_sampleEnd : sampleEnd.Shallow sampleStart :=
  ⟨rfl, by decide⟩

theorem loadsNothing_sampleEnd : sampleEnd.LoadsNothing sampleStart := by
  intro σ' h
  cases h
  decide

variable {s s' : Settings} {level level' : Nat} {e : Value} {i : FrameId} {σ : State}
  {r : Ending Value}

theorem ends_of_shallow {budget budget' : Nat}
    (hP : shallow.Evaluations (nested s budget level) (nested s' budget' level'))
    (hne : nested s budget level e i σ ≠ .cutShort)
    (hr : (nested s budget level e i σ).Shallow σ) :
    Ends s' level' e i σ (nested s budget level e i σ) := by
  rcases nested_agrees hP (settles_shallow hr) with ⟨_, _, _, hno⟩ | heq
  · exact absurd hno id
  · exact ⟨hne, budget', heq⟩

/-- A shallow ending is the ending wherever there is as much room. -/
theorem Ends.raised (hs : s'.strategy = s.strategy ∨ s'.strategy = .tailCall)
    (hroom : s.limit - level ≤ s'.limit - level') (h : Ends s level e i σ r) (hr : r.Shallow σ) :
    Ends s' level' e i σ r := by
  obtain ⟨hne, budget, rfl⟩ := h
  have hP : shallow.Evaluations (nested s budget level) (nested s' budget level') :=
    nested_raised hroom (run_raised hs (Nat.le_refl _))
  exact ends_of_shallow hP hne hr

/-- The same evaluation under `tailCall` comes to the shallow end that it comes to under
`recursive`. -/
theorem tailCall_ends_iff {limit level : Nat}
    (h : Ends ⟨.recursive, limit⟩ level e i σ r) (hr : r.Shallow σ) (r' : Ending Value) :
    Ends ⟨.tailCall, limit⟩ level e i σ r' ↔ r' = r := by
  refine Ends.iff_eq (.raised ?_ ?_ h hr)
  · exact .inr rfl
  · exact Nat.le_refl _

theorem tailCall_ends_iff_sample : Ends ⟨.recursive, 4⟩ 0 sample 0 sampleStart sampleEnd ∧
    ∀ r', Ends ⟨.tailCall, 4⟩ 0 sample 0 sampleStart r' ↔ r' = sampleEnd :=
  ⟨sample_ends_recursive, tailCall_ends_iff sample_ends_recursive shallow_sampleEnd⟩

/-- A shallow ending under `tailCall` is the ending under `recursive` as well, if only the
limit is large enough. -/
theorem recursive_ends_iff_of_large {limit level : Nat}
    (h : Ends ⟨.tailCall, limit⟩ level e i σ r) (hr : r.Shallow σ) :
    ∃ N, ∀ limit', N ≤ limit' → ∀ r', Ends ⟨.recursive, limit'⟩ level e i σ r' ↔ r' = r := by
  obtain ⟨hne, budget, rfl⟩ := h
  refine ⟨level + 1 + budget, fun limit' hN r' => Ends.iff_eq ?_⟩
  have hP : shallow.Evaluations (nested ⟨.tailCall, limit⟩ budget level)
      (nested ⟨.recursive, limit'⟩ budget level) := by
    refine .nested_of_run (not_error_shallow _) ?_
    intro _
    have hl' : level < limit' := by omega
    have hroom : budget ≤ limit' - (level + 1) := by omega
    have hdeeper : nested ⟨.recursive, limit'⟩ budget level =
        run ⟨.recursive, limit'⟩ budget (level + 1) := nested_of_lt hl' budget
    rw [hdeeper]
    exact run_roomy hroom
  exact ends_of_shallow hP hne hr

theorem recursive_ends_iff_of_large_sample :
    ∃ N, ∀ limit', N ≤ limit' → ∀ r',
      Ends ⟨.recursive, limit'⟩ 0 sample 0 sampleStart r' ↔ r' = sampleEnd :=
  recursive_ends_iff_of_large sample_ends_tailCall shallow_sampleEnd

/-- A shallow ending under one limit is the ending under every higher one; under a lower one
it is, too, or the evaluation is too deep, unless a `load` is on the way. -/
theorem ends_under_limits {strategy : Strategy} {limit level : Nat}
    (h : Ends ⟨strategy, limit⟩ level e i σ r) (hr : r.Shallow σ) :
    (∀ limit', limit ≤ limit' → ∀ r', Ends ⟨strategy, limit'⟩ level e i σ r' ↔ r' = r) ∧
      (r.LoadsNothing σ → ∀ limit' < limit, Ends ⟨strategy, limit'⟩ level e i σ r ∨
        ∃ σ', Ends ⟨strategy, limit'⟩ level e i σ (.error (.tooDeep limit') σ')) := by
  constructor
  · intro limit' hle r'
    refine Ends.iff_eq (.raised ?_ ?_ h hr)
    · exact .inl rfl
    · exact Nat.sub_le_sub_right hle level
  · intro hload limit' _
    obtain ⟨hne, budget, rfl⟩ := h
    have hP : (refusing limit').Evaluations (nested ⟨strategy, limit⟩ budget level)
        (nested ⟨strategy, limit'⟩ budget level) :=
      nested_lowered (run_lowered limit')
    rcases nested_agrees hP (settles_refusing limit' hr hload) with ⟨err, τ, herr, rfl⟩ | heq
    · exact .inr ⟨τ, by simp, budget, herr⟩
    · exact .inl ⟨hne, budget, heq⟩

theorem ends_under_limits_sample :
    (∀ limit', 4 ≤ limit' → ∀ r',
      Ends ⟨.recursive, limit'⟩ 0 sample 0 sampleStart r' ↔ r' = sampleEnd) ∧
    ∀ limit' < 4, Ends ⟨.recursive, limit'⟩ 0 sample 0 sampleStart sampleEnd ∨
      ∃ σ', Ends ⟨.recursive, limit'⟩ 0 sample 0 sampleStart (.error (.tooDeep limit') σ') :=
  have h := ends_under_limits sample_ends_recursive shallow_sampleEnd
  ⟨h.1, h.2 loadsNothing_sampleEnd⟩

end Eval

end DualScope
