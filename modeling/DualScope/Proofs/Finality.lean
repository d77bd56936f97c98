import DualScope.Proofs.Depth
import DualScope.Proofs.FormSteps
import DualScope.Proofs.Steps

/-!
# Results are not evaluated again

A form hands on the value of one of its parts in two ways. It evaluates the part and its value is
final, or it leaves the part to be evaluated in its place. Were a value handed on in the wrong way
it would be evaluated once more, and this would show where it is a symbol or a list. But a step on
a form around a hole ends with the value of the hole, if it evaluates the hole itself, or leaves
the hole and has evaluated nothing but a constant. In both cases the form has the value of the
hole, at most one level deeper, and nothing else went out.

What stands beside the hole may be any expression, also one that fails or never ends, since it is
not evaluated.
-/

namespace DualScope

/-- A form around a hole whose value is that of the hole. -/
inductive Wrapper
  /-- `(begin [])` -/
  | begin
  /-- `(and [])` -/
  | and
  /-- `(or [])` -/
  | or
  /-- `(if #t [] e)` -/
  | ifTrue (e : Value)
  /-- `(cond (else []))` -/
  | condElse
  /-- `(or [] e e' ...)`, for a true value -/
  | orBefore (e : Value) (es : List Value)
  /-- `(cond ([]) (e) ...)`, for a true value -/
  | condBefore (es : List Value)

namespace Wrapper

/-- The value of the hole decides whether the form goes on behind it. -/
def Tests : Wrapper → Prop
  | .orBefore _ _ | .condBefore _ => True
  | _ => False

/-- The expression is the form around the other one, wherever it stands in a text. -/
def Around (outer hole : Value) : Wrapper → Prop
  | .begin => outer.IsForm .begin [hole]
  | .and => outer.IsForm .and [hole]
  | .or => outer.IsForm .or [hole]
  | .ifTrue e => ∃ span, outer.IsForm .ifElse [.boolean true span, hole, e]
  | .condElse =>
    ∃ clause span, clause.list? = some [.symbol "else" span, hole] ∧ outer.IsForm .cond [clause]
  | .orBefore e es => outer.IsForm .or (hole :: e :: es)
  | .condBefore es =>
    ∃ clause clauses, clause.list? = some [hole] ∧
      List.Forall₂ (fun (c e : Value) => c.list? = some [e]) clauses es ∧
      outer.IsForm .cond (clause :: clauses)

variable {w : Wrapper} {outer hole v : Value} {i : FrameId} {σ σ' : State}

theorem Around.symbol? (h : w.Around outer hole) : outer.symbol? = none := by
  cases w with
  | begin => exact Value.IsForm.symbol? h
  | and => exact Value.IsForm.symbol? h
  | or => exact Value.IsForm.symbol? h
  | ifTrue e =>
      obtain ⟨_, h⟩ := h
      exact h.symbol?
  | condElse =>
      obtain ⟨_, _, -, h⟩ := h
      exact h.symbol?
  | orBefore e es => exact Value.IsForm.symbol? h
  | condBefore es =>
      obtain ⟨_, _, -, -, h⟩ := h
      exact h.symbol?

/-- A step ends with the value of the hole, or leaves the hole before anything happened. -/
theorem Around.step (h : w.Around outer hole) (hsymbol : hole.symbol? ≠ some "else")
    {eval : Evaluation} (hconstants : eval.KeepsConstants) (hhole : eval hole i σ = .value v σ')
    (htrue : w.Tests → v.isTrue = true) :
    Eval.step eval outer i σ = .value (.done v) σ' ∨
      Eval.step eval outer i σ = .value (.eval hole i) σ := by
  cases w with
  | begin =>
      left
      rw [Form.step_begin h, Form.sequence, bind_assoc, Action.bind_apply, hhole]
      rfl
  | and =>
      left
      rw [Form.step_and h (.boolean true .none), Form.conjunction, bind_assoc, Action.bind_apply,
        hhole]
      simp only [Form.conjunction, ite_self]
      rfl
  | or =>
      right
      rw [Form.step_or h (.boolean false .none)]
      rfl
  | ifTrue e =>
      right
      obtain ⟨span, h⟩ := h
      rw [Form.step_ifElse h, hconstants _ i ⟨rfl, rfl⟩, pure_bind]
      rfl
  | condElse =>
      right
      obtain ⟨clause, span, hclause, h⟩ := h
      rw [Form.step_cond h, Form.clauses_else hclause]
      rfl
  | orBefore e es =>
      left
      rw [Form.step_or h (.boolean false .none),
        Form.disjunction.eq_3 _ _ _ _ _ (List.cons_ne_nil _ _), Action.bind_apply, hhole]
      simp only [htrue trivial, if_pos]
      rfl
  | condBefore es =>
      left
      obtain ⟨clause, clauses, hclause, -, h⟩ := h
      obtain ⟨body, hbody, hclauses⟩ := Form.clauses_cons hclause hsymbol clauses
      obtain ⟨nspan, rfl⟩ := Value.list?_eq_nil hbody
      rw [Form.step_cond h, hclauses, Action.bind_apply, hhole]
      simp only [htrue trivial, Value.isNil, if_pos]
      rfl

open Eval

/-- With room for one level more, the form has the value of the hole. -/
theorem Around.ends (h : w.Around outer hole) (hsymbol : hole.symbol? ≠ some "else")
    (htrue : w.Tests → v.isTrue = true) {strategy : Strategy} {limit level : Nat}
    (hends : Ends ⟨strategy, limit⟩ level hole i σ (.value v σ'))
    (hshallow : (Ending.value v σ').Shallow σ) :
    Ends ⟨strategy, limit + 1⟩ level outer i σ (.value v σ') := by
  have hroom : level < limit := hends.room hshallow
  have hbeside : Ends ⟨strategy, limit + 1⟩ level hole i σ (.value v σ') :=
    hends.raised (.inl (by rfl)) (Nat.sub_le_sub_right (Nat.le_succ limit) level) hshallow
  have hbelow : Ends ⟨strategy, limit + 1⟩ (level + 1) hole i σ (.value v σ') :=
    hends.raised (.inl (by rfl)) (by simp) hshallow
  obtain ⟨-, beside, hbeside⟩ := hbeside
  obtain ⟨-, below, hbelow⟩ := hbelow
  let budget := beside + below + 1
  have hdeeper : nested ⟨strategy, limit + 1⟩ budget (level + 1) hole i σ = .value v σ' :=
    nested_stable hbelow nofun (by omega)
  have honward : onward ⟨strategy, limit + 1⟩ budget (level + 1) hole i σ = .value v σ' := by
    cases strategy with
    | tailCall =>
        have hlevel : level < limit + 1 := Nat.lt_succ_of_lt hroom
        rw [← nested_stable hbeside nofun (show beside ≤ budget by omega), nested_of_lt hlevel]
        rfl
    | recursive => exact hdeeper
  have hconstants : (nested ⟨strategy, limit + 1⟩ budget (level + 1)).KeepsConstants :=
    (nested_takesSteps (Nat.succ_lt_succ hroom) _).keepsConstants
  refine ⟨nofun, budget + 1, ?_⟩
  rw [nested_eq_conclude (Nat.lt_succ_of_lt hroom), Action.bind_apply]
  rcases h.step hsymbol hconstants hdeeper htrue with hstep | hstep
  · rw [hstep]
    rfl
  · rw [hstep]
    exact honward

/-- The first expression is the forms around the second one, from the outermost to the
innermost. -/
def Wrapped : List Wrapper → Value → Value → Prop
  | [], outer, e => outer = e
  | w :: ws, outer, e => ∃ hole, w.Around outer hole ∧ Wrapped ws hole e

theorem Wrapped.symbol? {ws : List Wrapper} {e : Value} {name : String} (h : Wrapped ws outer e)
    (he : e.symbol? ≠ some name) : outer.symbol? ≠ some name := by
  cases ws with
  | nil =>
      cases h
      exact he
  | cons w ws =>
      obtain ⟨hole, hw, -⟩ := h
      rw [hw.symbol?]
      nofun

theorem Wrapped.ends {ws : List Wrapper} {e : Value} (h : Wrapped ws outer e)
    (hsymbol : e.symbol? ≠ some "else") (htrue : (∃ w ∈ ws, w.Tests) → v.isTrue = true)
    {strategy : Strategy} {limit level : Nat}
    (hends : Ends ⟨strategy, limit⟩ level e i σ (.value v σ'))
    (hshallow : (Ending.value v σ').Shallow σ) :
    Ends ⟨strategy, limit + ws.length⟩ level outer i σ (.value v σ') := by
  induction ws generalizing outer with
  | nil =>
      cases h
      exact hends
  | cons w ws ih =>
      obtain ⟨hole, hw, hws⟩ := h
      have hhole := ih hws fun ⟨w', hw', ht⟩ => htrue ⟨w', List.mem_cons_of_mem _ hw', ht⟩
      exact hw.ends (hws.symbol? hsymbol) (fun ht => htrue ⟨w, List.mem_cons_self, ht⟩) hhole
        hshallow

/-- However often an expression is wrapped, with as much more room the whole has exactly the value
of the expression, as it is, and the effects of evaluating it once. This is so for a symbol and for
a list of any kind. -/
theorem wrapped_ends_iff {ws : List Wrapper} {e : Value} (h : Wrapped ws outer e)
    (hsymbol : e.symbol? ≠ some "else") (htrue : (∃ w ∈ ws, w.Tests) → v.isTrue = true)
    {strategy : Strategy} {limit level : Nat}
    (hends : Ends ⟨strategy, limit⟩ level e i σ (.value v σ'))
    (hshallow : (Ending.value v σ').Shallow σ) (r : Ending Value) :
    Ends ⟨strategy, limit + ws.length⟩ level outer i σ r ↔ r = .value v σ' :=
  (h.ends hsymbol htrue hends hshallow).iff_eq

section

/-- `(begin (newline) (quote (x)))`, with the procedure itself for its name. -/
def printing : Value :=
  Form.begin.on [.ofList [.primitive .newline .none],
    Form.quote.on [.ofList [.symbol "x" .none]]]

def unbound : Value :=
  .symbol "unbound" .none

/-- `(cond ((or (if #t (begin (and (or (cond (else []))))) unbound) unbound)) (unbound))` around
the expression. -/
def wrappedPrinting : Value :=
  Form.cond.on [
    .ofList [Form.or.on [
      Form.ifElse.on [.boolean true .none,
        Form.begin.on [Form.and.on [Form.or.on [
          Form.cond.on [.ofList [.symbol "else" .none, printing]]]]],
        unbound],
      unbound]],
    .ofList [unbound]]

/-- What `printing` comes to. -/
def printed : Ending Value :=
  .value (.ofList [.symbol "x" .none]) (sampleStart.emit (.wrote "\n"))

theorem wrapped_ends_iff_printing :
    Wrapped [.condBefore [unbound], .orBefore unbound [], .ifTrue unbound, .begin, .and, .or,
        .condElse] wrappedPrinting printing ∧
      Ends ⟨.recursive, 3⟩ 0 printing 0 sampleStart printed ∧
      Ends ⟨.recursive, 10⟩ 0 wrappedPrinting 0 sampleStart printed := by
  have hwrapped : Wrapped [.condBefore [unbound], .orBefore unbound [], .ifTrue unbound, .begin,
      .and, .or, .condElse] wrappedPrinting printing := by
    refine ⟨_, ⟨_, _, Value.list?_ofList _, .cons (Value.list?_ofList _) .nil, Form.isForm_on _ _⟩,
      _, Form.isForm_on _ _, _, ⟨.none, Form.isForm_on _ _⟩, _, Form.isForm_on _ _,
      _, Form.isForm_on _ _, _, Form.isForm_on _ _, _, ?_, rfl⟩
    exact ⟨_, .none, Value.list?_ofList _, Form.isForm_on _ _⟩
  have hends : Ends ⟨.recursive, 3⟩ 0 printing 0 sampleStart printed :=
    ⟨nofun, 20, rfl⟩
  refine ⟨hwrapped, hends, (wrapped_ends_iff hwrapped ?_ ?_ hends ?_ printed).mpr rfl⟩
  · decide
  · exact fun _ => rfl
  · intro e he
    cases he with
    | head => rfl
    | tail _ he => cases he

end

end Wrapper

end DualScope
