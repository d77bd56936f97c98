import DualScope.Proofs.FormSteps
import DualScope.Proofs.Likeness.Issued
import DualScope.Proofs.Steps

/-!
# `let` as a call

`(let ((x e) ...) b ...)` does what `((lambda (x ...) b ...) e ...)` does, but the two go different
ways. The call makes a closure first and so gives out an identity that the `let` does not: those
that are given out behind it all come one later. Then both evaluate the same operands and bind
their values in a new frame. The `let` evaluates its body by itself and leaves the last expression.
The body of the closure is left as a whole, and if it has several expressions it is a `begin`,
which evaluates the last one deeper than the `let` does.

The first difference is one of likeness and the other one of room, so they are treated apart. Once
its closure is there, the call agrees with the `let` from the same state, as long as there is room;
and from the state with one more identity given out it does what is alike.
-/

namespace DualScope

/-! ## The expressions -/

namespace Value

/-- `(let ((x e) ...) b ...)`, wherever it stands in a text. -/
def IsLet (x : Value) (bindings : List (String × Value)) (bodies : List Value) : Prop :=
  ∃ v vs, x.IsForm .letIn (v :: bodies) ∧ v.list? = some vs ∧
    List.Forall₂ (fun v b => ∃ span, v.list? = some [.symbol b.1 span, b.2]) vs bindings

/-- `((lambda (x ...) b ...) e ...)` -/
def CallsLambda (y : Value) (bindings : List (String × Value)) (bodies : List Value) : Prop :=
  ∃ head formals, y.list? = some (head :: bindings.map Prod.snd) ∧
    head.IsForm .lambda (formals :: bodies) ∧ formals.Symbols (bindings.map Prod.fst)

theorem Throughout.of_mem {v w : Value} {vs : List Value} {name : String → Prop}
    {identity : Identity → Prop} (h : v.Throughout name identity) (hv : v.list? = some vs)
    (hw : w ∈ vs) : w.Throughout name identity := by
  induction vs generalizing v with
  | nil => cases hw
  | cons first others ih =>
      obtain ⟨id, rest, span, rfl, hrest⟩ := list?_eq_cons hv
      rcases List.mem_cons.mp hw with rfl | hw
      · exact h.2.1
      · exact ih h.2.2 hrest hw

end Value

/-! ## Bodies -/

namespace Form

variable {rest : Value} {bodies : List Value}

/-- A body is one expression or a `begin`. -/
theorem bodyExpression_cases (h : rest.list? = some bodies) (hbodies : bodies ≠ []) :
    bodies = [bodyExpression rest] ∨ (bodyExpression rest).IsForm .begin bodies := by
  cases bodies with
  | nil => exact absurd rfl hbodies
  | cons e es =>
      cases es with
      | nil => exact .inl (by rw [(bodyExpression_single h).1])
      | cons e' es =>
          obtain ⟨id, rest, span, rfl, hrest⟩ := Value.list?_eq_cons h
          obtain ⟨id', rest, span', rfl, -⟩ := Value.list?_eq_cons hrest
          refine .inr ⟨span, ?_⟩
          rw [bodyExpression.eq_2 _ (by rintro _ _ _ _ ⟨⟩), Value.list?_pair, h]
          rfl

/-- To evaluate a sequence is to evaluate it as a body and its last expression like the others. -/
theorem sequence_eq_body (eval : Evaluation) (i : FrameId) (last : Value) (span : Span)
    (hbodies : bodies ≠ []) :
    sequence eval i last bodies = body eval i span bodies >>= Next.conclude eval := by
  induction bodies generalizing last with
  | nil => exact absurd rfl hbodies
  | cons e es ih =>
      cases es with
      | nil => exact bind_pure _
      | cons e' es =>
          rw [sequence, body.eq_3 _ _ _ _ _ (List.cons_ne_nil _ _), bind_assoc]
          exact congrArg _ (funext fun v => ih v (List.cons_ne_nil _ _))

end Form

namespace Eval

variable {s s' : Settings} {budget budget' level level' : Nat} {rest : Value} {bodies : List Value}

/-- A `begin` evaluates its last expression, too, one level deeper. -/
theorem run_begin {e : Value} (he : e.IsForm .begin bodies) (hbodies : bodies ≠ [])
    (budget level : Nat) (j : FrameId) (span : Span) :
    run s (budget + 1) level e j =
      Form.body (nested s budget level) j span bodies >>=
        Next.conclude (nested s budget level) := by
  obtain ⟨b, bs, rfl⟩ := List.exists_cons_of_ne_nil hbodies
  rw [run_eq_bind, Form.step_begin he, Form.sequence_eq_body _ _ _ span hbodies]
  simp only [bind_assoc, pure_bind]
  exact congrArg _ (funext fun next => bind_pure _)

/-- Where a `begin` is left, its expressions are evaluated below this level or one level deeper. -/
theorem onward_begin {e : Value} (he : e.IsForm .begin bodies) (hbodies : bodies ≠ [])
    (hlevel : level < s.limit) : ∃ k, level ≤ k ∧ k ≤ level + 1 ∧ ∀ budget j span,
      onward s (budget + 1) level e j =
        Form.body (nested s budget k) j span bodies >>= Next.conclude (nested s budget k) := by
  unfold onward
  cases s.strategy with
  | tailCall =>
      exact ⟨level, Nat.le_refl _, Nat.le_succ _, fun budget => run_begin he hbodies budget level⟩
  | recursive =>
      refine ⟨level + 1, Nat.le_succ _, Nat.le_refl _, fun budget j span => ?_⟩
      dsimp only
      rw [nested_of_lt hlevel, run_begin he hbodies]

end Eval

/-! ## The two evaluations -/

namespace Eval

theorem length_operands {eval : Evaluation} {i : FrameId} {es known ws : List Value} {σ σ' : State}
    (h : operands eval i known es σ = .value ws σ') : ws.length = known.length + es.length := by
  induction es generalizing known σ with
  | nil =>
      cases h
      exact List.length_reverse
  | cons e es ih =>
      rw [operands, Action.bind_apply] at h
      cases he : eval e i σ with
      | value v σ₁ =>
          rw [he] at h
          rw [ih h, List.length_cons, List.length_cons]
          omega
      | error err σ₁ =>
          rw [he] at h
          cases h
      | cutShort =>
          rw [he] at h
          cases h

/-- The operands are evaluated, and then `inside` is done in a frame that binds the names to their
values. -/
def bindOperands (eval : Evaluation) (i : FrameId) (bindings : List (String × Value))
    (inside : FrameId → Action Value) : Action Value := do
  let ws ← operands eval i [] (bindings.map Prod.snd)
  let j ← Action.newFrame ⟨some i, (bindings.map Prod.fst).zip ws⟩
  inside j

/-- What a `let` does at its level. The last expression of the body is left. -/
def insideLet (s : Settings) (budget level : Nat) (i : FrameId) (bindings : List (String × Value))
    (span : Span) (bodies : List Value) : Action Value :=
  bindOperands (nested s budget level) i bindings fun j =>
    Form.body (nested s budget level) j span bodies >>= Next.conclude (onward s budget level)

/-- What a call of a closure of the frame does once the closure is there. The whole body is
left. -/
def insideCall (s : Settings) (budget level : Nat) (i : FrameId)
    (bindings : List (String × Value)) (rest : Value) : Action Value :=
  bindOperands (nested s budget level) i bindings
    (onward s budget level (Form.bodyExpression rest))

section

variable {x y : Value} {bindings : List (String × Value)} {bodies : List Value}

theorem nested_let (hx : x.IsLet bindings bodies) (hnodup : (bindings.map Prod.fst).Nodup)
    (hbodies : bodies ≠ []) (i : FrameId) :
    ∃ span, ∀ s level budget, level < s.limit → nested s (budget + 1) level x i =
      insideLet s budget (level + 1) i bindings span bodies := by
  obtain ⟨v, vs, hx, hv, hvs⟩ := hx
  obtain ⟨operands, fspan, hoperands, hstep⟩ := Form.step_eq_perform hx
  have hlength : Form.checkLength operands 2 none = .ok () :=
    Form.checkLength_of_list? hoperands (Nat.succ_le_succ (List.length_pos_iff.mpr hbodies))
      fun _ h => by cases h
  refine ⟨operands.span, fun s level budget hlevel => ?_⟩
  obtain ⟨id, rest, span, rfl, hrest⟩ := Value.list?_eq_cons hoperands
  have hmade : Form.letBindings (nested s budget (level + 1)) i [] vs = _ :=
    Form.letBindings_eq _ i hvs hnodup
  rw [nested_eq_conclude hlevel, hstep, Form.perform, hlength, insideLet, bindOperands]
  simp only [Form.uncons, Action.ofExcept_ok, pure_bind, Value.isProper_of_list? hv,
    Bool.not_true, Bool.false_eq_true, if_false, Value.elements_of_list? hv,
    Value.elements_of_list? hrest, hmade, bind_assoc, List.nil_append]

theorem nested_call_lambda (hy : y.CallsLambda bindings bodies)
    (hnodup : (bindings.map Prod.fst).Nodup) (hbodies : bodies ≠ []) (i : FrameId) (σ : State) :
    ∃ rest : Value, rest.list? = some bodies ∧
      (∀ identity, y.Throughout (fun _ => True) identity →
        (∀ v ∈ bindings.map Prod.snd, v.Throughout (fun _ => True) identity) ∧
          rest.Throughout (fun _ => True) identity) ∧
      ∀ s level budget, level + 1 < s.limit → nested s (budget + 2) level y i σ =
        insideCall s (budget + 1) (level + 1) i bindings rest { σ with made := σ.made + 1 } := by
  obtain ⟨head, formals, hy, hhead, hformals⟩ := hy
  obtain ⟨hid, nspan, operands, span, rfl, hoperands⟩ := hhead.eq_pair
  obtain ⟨id, rest, ospan, rfl, hrest⟩ := Value.list?_eq_cons hoperands
  refine ⟨rest, hrest, fun identity h => ?_, fun s level budget hlevel => ?_⟩
  · exact ⟨fun v hv => h.of_mem hy (List.mem_cons_of_mem _ hv),
      (h.of_mem hy List.mem_cons_self).2.2.2.2⟩
  · have hparts := Form.procedureParts_pair hrest hbodies hformals hnodup id ospan
    let callee := Value.lambda (.made σ.made) formals (Form.bodyExpression rest) i span
    have hcallee : nested s (budget + 1) (level + 1) (.pair hid (.symbol Form.lambda.name nspan)
        (.pair id formals rest ospan) span) i σ = .value callee { σ with made := σ.made + 1 } := by
      refine nested_takesSteps hlevel budget _ i σ _ _ fun eval => ?_
      rw [Form.step_form hoperands, Form.perform, Form.makeLambda, hparts]
      rfl
    rw [nested_eq_conclude (Nat.lt_of_succ_lt hlevel), step_call hy rfl, insideCall,
      bindOperands]
    simp only [Action.bind_apply, hcallee]
    cases hws : operands (nested s (budget + 1) (level + 1)) i [] (bindings.map Prod.snd)
        { σ with made := σ.made + 1 } with
    | value ws σ₁ =>
        have hlength : (Value.ofList ws).length? = some (bindings.map Prod.fst).length := by
          rw [Value.length?_of_list? (Value.list?_ofList ws), length_operands hws, List.length_map,
            List.length_map, List.length_nil, Nat.zero_add]
        simp only [apply_eq (p := callee) rfl rfl hformals hnodup, if_pos hlength,
          Value.elements_ofList]
        rfl
    | _ => rfl

end

end Eval

/-! ## Room -/

namespace Pairing

open Eval

variable {P : Pairing .any} {eval eval' onward onward' : Evaluation} {i : FrameId} {σ τ : State}
  {bodies : List Value}

theorem Lockstep.bindOperands (heval : P.Evaluations eval eval')
    {inside inside' : FrameId → Action Value}
    (h : ∀ j σ τ, P.At j σ τ → P.Lockstep j σ τ (inside j) (inside' j) Discipline.any.Fine)
    (hat : P.At i σ τ) (bindings : List (String × Value)) :
    P.Lockstep i σ τ (Eval.bindOperands eval i bindings inside)
      (Eval.bindOperands eval' i bindings inside') Discipline.any.Fine := by
  refine .bind hat (heval.operands hat (fun e _ => Discipline.any_fine _ e) nofun) ?_
  intro ws σ₁ τ₁ _ h₁ _
  refine .bind_inside (.newFrame h₁ trivial fun b _ => Discipline.any_fine _ b.2) ?_
  intro j σ₂ τ₂ _ hsound hrel hj
  exact ⟨j, .inr hj.2, h j σ₂ τ₂ ⟨hsound, hrel, trivial⟩⟩

theorem Lockstep.body (heval : P.Evaluations eval eval')
    (honward : P.Evaluations onward onward') (hat : P.At i σ τ) (span : Span) :
    P.Lockstep i σ τ (Form.body eval i span bodies >>= Next.conclude onward)
      (Form.body eval' i span bodies >>= Next.conclude onward') Discipline.any.Fine :=
  .go_on hat (heval.body hat fun e _ => Discipline.any_fine _ e) honward

variable {s s' : Settings} {budget level : Nat} {rest : Value}

theorem bodies_bodyExpression (hs : s'.strategy = s.strategy) (hlimit : s.limit + 1 < s'.limit)
    (hlevel : level ≤ s.limit) (hrest : rest.list? = some bodies) (hbodies : bodies ≠ [])
    (hat : shallow.At i σ τ) (span : Span) :
    shallow.Lockstep i σ τ
      (Form.body (nested s budget level) i span bodies >>=
        Next.conclude (Eval.onward s budget level))
      (Eval.onward s' (budget + 1) level (Form.bodyExpression rest) i) Discipline.any.Fine := by
  rcases Form.bodyExpression_cases hrest hbodies with hone | hbegin
  · rw [hone]
    exact shallow_onward hs (Nat.le_succ _) (by omega) _ _ _ _ hat (Discipline.any_fine _ _)
  · have hroom : level < s'.limit := by omega
    obtain ⟨k, hk, hk', heq⟩ := onward_begin hbegin hbodies hroom
    rw [heq budget i span]
    exact .body (shallow_nested hs (Nat.le_refl _) (by omega))
      (shallow_onward_nested hs (Nat.le_refl _) (by omega)) hat span

theorem bodyExpression_bodies (hlevel : level < s.limit) (hrest : rest.list? = some bodies)
    (hbodies : bodies ≠ []) (hat : shallow.At i σ τ) (span : Span) :
    shallow.Lockstep i σ τ (Eval.onward s (budget + 1) level (Form.bodyExpression rest) i)
      (Form.body (nested s (budget + 1) level) i span bodies >>=
        Next.conclude (Eval.onward s (budget + 1) level)) Discipline.any.Fine := by
  rcases Form.bodyExpression_cases hrest hbodies with hone | hbegin
  · rw [hone]
    exact shallow_onward rfl (Nat.le_refl _) (Nat.le_refl _) _ _ _ _ hat (Discipline.any_fine _ _)
  · obtain ⟨k, hk, hk', heq⟩ := onward_begin hbegin hbodies hlevel
    rw [heq budget i span]
    exact .body (shallow_nested rfl (Nat.le_succ _) (by omega))
      (shallow_nested_onward rfl (Nat.le_succ _) (by omega)) hat span

/-- A `let` agrees with what the call does once its procedure is there, under a limit that leaves
room for a `begin`. -/
theorem let_lockstep (hs : s'.strategy = s.strategy) (hlimit : s.limit + 1 < s'.limit)
    (hlevel : level ≤ s.limit) (hrest : rest.list? = some bodies) (hbodies : bodies ≠ [])
    (hat : shallow.At i σ τ) (budget : Nat) (span : Span) (bindings : List (String × Value)) :
    shallow.Lockstep i σ τ
      (insideLet s budget level i bindings span bodies)
      (insideCall s' (budget + 1) level i bindings rest) Discipline.any.Fine :=
  .bindOperands (shallow_nested hs (Nat.le_succ _) (by omega))
    (fun _ _ _ hat => bodies_bodyExpression hs hlimit hlevel hrest hbodies hat span) hat bindings

theorem call_lockstep (hlevel : level < s.limit) (hrest : rest.list? = some bodies)
    (hbodies : bodies ≠ []) (hat : shallow.At i σ τ) (budget : Nat) (span : Span)
    (bindings : List (String × Value)) :
    shallow.Lockstep i σ τ
      (insideCall s (budget + 1) level i bindings rest)
      (insideLet s (budget + 1) level i bindings span bodies) Discipline.any.Fine :=
  .bindOperands (.nested_budget (Nat.le_refl _))
    (fun _ _ _ hat => bodyExpression_bodies hlevel hrest hbodies hat span) hat bindings

end Pairing

/-! ## Identities -/

namespace Eval

theorem like_bindOperands {L : Likeness} {C : Accord L} {eval : Evaluation}
    (heval : C.Evaluations eval eval) (i : FrameId)
    {bindings : List (String × Value)} (hnames : ∀ name ∈ bindings.map Prod.fst, L.name name)
    (hvalues : ∀ v ∈ bindings.map Prod.snd, v.Like L v) {inside : FrameId → Action Value}
    (h : ∀ j, C.Agree (Value.Like L) (inside j) (inside j)) :
    C.Agree (Value.Like L) (bindOperands eval i bindings inside)
      (bindOperands eval i bindings inside) := by
  refine .bind (like_operands heval i (List.forall₂_same.mpr hvalues) .nil) fun ws ws' hws => ?_
  exact .bind (C.newFrame i (like_zip hnames hws)) fun j j' hj => hj ▸ h j

section

variable {s : Settings} {level : Nat} {i : FrameId} {σ : State} {x y rest : Value}
  {bindings : List (String × Value)} {bodies : List Value} {r r' : Ending Value}

/-- That one more identity was given out before makes a difference to those given out by the call,
and to no others. -/
theorem like_insideCall (hσ : σ.Issued σ.made)
    (hbindings : ∀ v ∈ bindings.map Prod.snd, v.Issued σ.made) (hrest : rest.Issued σ.made)
    (s : Settings) (budget level : Nat) (i : FrameId) :
    (insideCall s budget level i bindings rest σ).Like (.later σ.made σ.log)
      (Value.Like (.later σ.made σ.log))
      (insideCall s budget level i bindings rest { σ with made := σ.made + 1 }) := by
  have hcut : (Accord.alike (.later σ.made σ.log)).Agree (Value.Like (.later σ.made σ.log))
      Action.cutShort Action.cutShort := fun _ _ _ => .cutShort
  have hbody := Form.like_bodyExpression (hrest.like σ.log)
  have hcall := like_bindOperands (like_nested hcut s budget level) i
    (fun name _ => (trivial : (Likeness.later σ.made σ.log).name name))
    (fun v hv => (hbindings v hv).like σ.log)
    fun j => like_onward hcut s budget level _ _ j hbody
  exact hcall σ _ hσ.like

/-! ## Ends -/

variable (hx : x.IsLet bindings bodies) (hy : y.CallsLambda bindings bodies)
  (hnodup : (bindings.map Prod.fst).Nodup) (hbodies : bodies ≠ []) (hσ : σ.Issued σ.made)
  (hissued : y.Issued σ.made)

include hx hy hnodup hbodies hσ hissued

theorem call_ends_of_let (h : Ends s level x i σ r) (hr : r.Shallow σ) (s' : Settings)
    (hs : s'.strategy = s.strategy) (hlimit : s.limit + 1 < s'.limit) :
    ∃ r', Ends s' level y i σ r' ∧
      r.Like (.later σ.made σ.log) (Value.Like (.later σ.made σ.log)) r' := by
  have hlevel : level + 1 ≤ s.limit := h.room hr
  obtain ⟨span, hlet⟩ := nested_let hx hnodup hbodies i
  obtain ⟨rest, hrest, hparts, hcall⟩ := nested_call_lambda hy hnodup hbodies i σ
  obtain ⟨hbindings, hrest'⟩ := hparts _ hissued
  obtain ⟨budget, rfl⟩ := h.exists_budget 1
  rw [hlet s level budget hlevel] at hr
  have hlock := Pairing.let_lockstep hs hlimit hlevel hrest hbodies
    (Pairing.shallow_at i σ) budget span bindings
  have hlike := like_insideCall hσ hbindings hrest' s' (budget + 1) (level + 1) i
  rw [hlock.agrees hr, ← hlet s level budget hlevel, ← hcall s' level budget (by omega)] at hlike
  exact ⟨_, ⟨mt hlike.cutShort_iff.mpr h.1, budget + 2, rfl⟩, hlike⟩

theorem let_ends_of_call (h : Ends s level y i σ r') (hr' : r'.Shallow σ) :
    ∃ r, Ends s level x i σ r ∧
      r.Like (.later σ.made σ.log) (Value.Like (.later σ.made σ.log)) r' := by
  have hlevel : level + 1 < s.limit := by
    obtain ⟨head, formals, hy, hhead, -⟩ := hy
    exact h.room_of_call hr' hy (by rw [hhead.symbol?]; rfl)
  obtain ⟨span, hlet⟩ := nested_let hx hnodup hbodies i
  obtain ⟨rest, hrest, hparts, hcall⟩ := nested_call_lambda hy hnodup hbodies i σ
  obtain ⟨hbindings, hrest'⟩ := hparts _ hissued
  obtain ⟨budget, rfl⟩ := h.exists_budget 2
  have hlock := Pairing.call_lockstep hlevel hrest hbodies
    (Pairing.shallow_at i σ) budget span bindings
  have hlike := like_insideCall hσ hbindings hrest' s (budget + 1) (level + 1) i
  rw [← hcall s level budget hlevel] at hlike
  have hagree := hlock.agrees ((hlike.shallow_iff rfl rfl).mpr hr')
  rw [← hagree, ← hlet s level (budget + 1) (Nat.lt_of_succ_lt hlevel)] at hlike
  exact ⟨_, ⟨mt hlike.cutShort_iff.mp h.1, budget + 2, rfl⟩, hlike⟩

end

/-- A `let` and the call of a `lambda` in its place: if no limit is in the way of the one or the
other, both end or neither does, and they end with the same value or error, with the same output
and reports, and in frames that are the same, but that each identity given out by the `let` stands
for the one that the call gives out after it. That the identities in use were given out is so at the
start of a session (`Session.issued_start`), and it is so again of the two ends. -/
theorem let_is_call {x y : Value} {bindings : List (String × Value)} {bodies : List Value}
    (hx : x.IsLet bindings bodies) (hy : y.CallsLambda bindings bodies)
    (hnodup : (bindings.map Prod.fst).Nodup) (hbodies : bodies ≠ []) {σ : State}
    (hσ : σ.Issued σ.made) (hissued : y.Issued σ.made) {s : Settings} {level : Nat} {i : FrameId}
    (hfree : Unhindered s level x i σ) (hfree' : Unhindered s level y i σ) :
    ((∃ r, Ends s level x i σ r) ↔ ∃ r', Ends s level y i σ r') ∧
      ∀ r r', Ends s level x i σ r → Ends s level y i σ r' →
        r.Like (.later σ.made σ.log) (Value.Like (.later σ.made σ.log)) r' ∧
          (r.Issued ∧ r'.Issued) ∧
          ∀ σ₁ τ₁, r.state? = some σ₁ → r'.state? = some τ₁ →
            Event.textOf Event.output? (τ₁.since σ) = Event.textOf Event.output? (σ₁.since σ) := by
  have hlet : ∀ r', Ends s level y i σ r' → ∃ r, Ends s level x i σ r ∧
      r.Like (.later σ.made σ.log) (Value.Like (.later σ.made σ.log)) r' := fun r' h =>
    let_ends_of_call hx hy hnodup hbodies hσ hissued h (h.unhindered_iff.mp hfree')
  refine ⟨⟨fun ⟨r, h⟩ => ?_, fun ⟨r', h⟩ => (hlet r' h).imp fun _ => And.left⟩, ?_⟩
  · obtain ⟨r', hr', -⟩ := call_ends_of_let hx hy hnodup hbodies hσ hissued h
      (h.unhindered_iff.mp hfree) ⟨s.strategy, s.limit + 2⟩ (by rfl) (Nat.lt_succ_self _)
    exact ⟨r', hfree'.ends (Nat.le_add_right _ 2) hr'⟩
  · intro r r' hr hr'
    obtain ⟨r₁, hr₁, hlike⟩ := hlet r' hr'
    rw [← hr₁.unique hr] at hlike
    have hissued' := hr'.issued hσ hissued
    refine ⟨hlike, ⟨hlike.issued hissued', hissued'⟩, fun σ₁ τ₁ hσ₁ hτ₁ => ?_⟩
    exact Event.textOf_output_like ((hlike.state hσ₁ hτ₁).since rfl rfl)

section

/-- `(cons #t ())`, with the procedure itself for its name. -/
def consing : Value :=
  .ofList [.primitive .cons .none, .boolean true .none, .nil .none]

/-- `(let ((x #t)) (newline) (cons #t ()))` -/
def letConsing : Value :=
  .ofList [.symbol "let" .none,
    .ofList [.ofList [.symbol "x" .none, .boolean true .none]],
    .ofList [.primitive .newline .none], consing]

/-- `((lambda (x) (newline) (cons #t ())) #t)` -/
def callConsing : Value :=
  .ofList [.ofList [.symbol "lambda" .none, .ofList [.symbol "x" .none],
    .ofList [.primitive .newline .none], consing], .boolean true .none]

/-- The end of both, with the pair as number `n`. -/
def consed (n : Nat) : Ending Value :=
  .value (.pair (.made n) (.boolean true .none) (.nil .none) .none)
    { (sampleStart.push ⟨some 0, [("x", .boolean true .none)]⟩).emit (.wrote "\n") with
      made := n + 1 }

theorem letConsing_ends : Ends ⟨.tailCall, 5⟩ 0 letConsing 0 sampleStart (consed 0) :=
  ⟨by simp [consed], 20, rfl⟩

theorem callConsing_ends : Ends ⟨.tailCall, 5⟩ 0 callConsing 0 sampleStart (consed 1) :=
  ⟨by simp [consed], 20, rfl⟩

theorem let_is_call_consing :
    Ends ⟨.tailCall, 5⟩ 0 letConsing 0 sampleStart (consed 0) ∧
      Ends ⟨.tailCall, 5⟩ 0 callConsing 0 sampleStart (consed 1) ∧
      (consed 0).Like (.later 0 []) (Value.Like (.later 0 [])) (consed 1) ∧
      (consed 0).Issued ∧ (consed 1).Issued := by
  let bindings := [("x", Value.boolean true .none)]
  let bodies := [Value.ofList [.primitive .newline .none], consing]
  have hx : letConsing.IsLet bindings bodies :=
    ⟨_, _, ⟨.none, rfl⟩, rfl, .cons ⟨.none, rfl⟩ .nil⟩
  have hy : callConsing.CallsLambda bindings bodies :=
    ⟨_, _, rfl, ⟨.none, rfl⟩, .cons _ _ _ _ (.nil _)⟩
  have hissued : callConsing.Issued 0 := by
    simp [callConsing, consing, Value.ofList, Value.Issued, Value.Throughout, Identity.Issued]
  have hshallow : ∀ n, (consed n).Shallow sampleStart := by
    intro n e he
    cases he with
    | head => rfl
    | tail _ he => cases he
  have hcall := let_is_call hx hy (by decide) (by simp [bodies]) (Session.issued_start _) hissued
    (letConsing_ends.unhindered_iff.mpr (hshallow 0))
    (callConsing_ends.unhindered_iff.mpr (hshallow 1))
  obtain ⟨hlike, hends, -⟩ := hcall.2 _ _ letConsing_ends callConsing_ends
  exact ⟨letConsing_ends, callConsing_ends, hlike, hends⟩

end

end Eval

end DualScope
