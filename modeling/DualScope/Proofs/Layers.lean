import DualScope.Proofs.Constants

/-!
# What a position costs

An expression in the middle of others is evaluated at some depth below the whole. How deep
depends on the positions that it stands in, one inside of the other. In tail position, that
is as the last expression of a body or as the branch that an `if`, a `cond` or an `or` comes
to, it is what a step leaves: under `recursive` it is one level deeper, and under `tailCall`
it takes the place of the whole. As an operand of `and` or `begin` it is one level deeper
under both.

So the depth of an expression is a sum over its positions. Around it there is nothing here but
constants, and the evaluation of the whole is that of the expression, in the innermost frame
that was made on the way: with the same outcome, the same effects, and the same refusal where
the limit is.
-/

namespace DualScope

/-- An expression with a hole. In the places beside the hole there are constants other than
false, or false where it is written, or, where nothing is evaluated, any expression. -/
inductive Layer
  /-- `(if c [])` -/
  | ifThen (c : Value)
  /-- `(if c [] e)` -/
  | ifThenElse (c e : Value)
  /-- `(if #f e [])` -/
  | ifElse (f e : Value)
  /-- `(cond (#f e ...) ... (c []))` -/
  | condTest (skipped : List Value) (c : Value)
  /-- `(cond (#f e ...) ... (else []))` -/
  | condElse (skipped : List Value)
  /-- `(or #f ... [])` -/
  | or (fs : List Value)
  /-- `(let ((x c) ...) c ... [])` -/
  | letIn (bindings : List (String × Value)) (cs : List Value)
  /-- `((lambda (x ...) []) c ...)` -/
  | lambda (bindings : List (String × Value))
  /-- `((mu (x ...) []) c ...)` -/
  | mu (bindings : List (String × Value))
  /-- `(begin c ... [])` -/
  | begin (cs : List Value)
  /-- `(and c ... [])` -/
  | and (cs : List Value)

namespace Layer

/-- The hole is in tail position. -/
def isTail : Layer → Bool
  | .begin _ | .and _ => false
  | _ => true

/-- The frame that the hole is evaluated in, and the state there. -/
def enter (i : FrameId) (σ : State) : Layer → FrameId × State
  | .letIn bindings _ => (σ.frames.size, σ.push ⟨some i, bindings⟩)
  | .lambda bindings | .mu bindings =>
    (σ.frames.size, { σ with made := σ.made + 1 }.push ⟨some i, bindings⟩)
  | _ => (i, σ)

/-- The names differ from one another and are bound to constants. -/
structure Bindable (bindings : List (String × Value)) : Prop where
  nodup : (bindings.map Prod.fst).Nodup
  truths : ∀ b ∈ bindings, b.2.IsTruth

/-- A clause whose test is false. -/
def Skipped (clause : Value) : Prop :=
  ∃ f es, f.IsFalsity ∧ clause.list? = some (f :: es)

/-- The expression is this layer around the other one. Where things stand in a text makes no
difference. -/
def Around (outer hole : Value) : Layer → Prop
  | .ifThen c => c.IsTruth ∧ outer.IsForm .ifElse [c, hole]
  | .ifThenElse c e => c.IsTruth ∧ outer.IsForm .ifElse [c, hole, e]
  | .ifElse f e => f.IsFalsity ∧ outer.IsForm .ifElse [f, e, hole]
  | .condTest skipped c => (∀ clause ∈ skipped, Skipped clause) ∧ c.IsTruth ∧
    ∃ clause, clause.list? = some [c, hole] ∧ outer.IsForm .cond (skipped ++ [clause])
  | .condElse skipped => (∀ clause ∈ skipped, Skipped clause) ∧
    ∃ clause span, clause.list? = some [.symbol "else" span, hole] ∧
      outer.IsForm .cond (skipped ++ [clause])
  | .or fs => (∀ f ∈ fs, f.IsFalsity) ∧ outer.IsForm .or (fs ++ [hole])
  | .letIn bindings cs => Bindable bindings ∧ (∀ c ∈ cs, c.IsTruth) ∧
    ∃ list vs, list.list? = some vs ∧
      List.Forall₂ (fun v (b : String × Value) =>
        ∃ span, v.list? = some [.symbol b.1 span, b.2]) vs bindings ∧
      outer.IsForm .letIn (list :: (cs ++ [hole]))
  | .lambda bindings => Bindable bindings ∧
    ∃ head formals, head.IsForm .lambda [formals, hole] ∧
      formals.Symbols (bindings.map Prod.fst) ∧
      outer.list? = some (head :: bindings.map Prod.snd)
  | .mu bindings => Bindable bindings ∧
    ∃ head formals, head.IsForm .mu [formals, hole] ∧
      formals.Symbols (bindings.map Prod.fst) ∧
      outer.list? = some (head :: bindings.map Prod.snd)
  | .begin cs => (∀ c ∈ cs, c.IsTruth) ∧ outer.IsForm .begin (cs ++ [hole])
  | .and cs => (∀ c ∈ cs, c.IsTruth) ∧ outer.IsForm .and (cs ++ [hole])

section

variable {eval : Evaluation} {i : FrameId} {hole operands : Value} {vs es cs : List Value}
  {span : Span}

theorem perform_ifElse (heval : eval.KeepsConstants) {c : Value} (hc : c.IsConstant)
    (h : operands.list? = some (c :: es)) (hleast : 1 ≤ es.length) (hmost : es.length ≤ 2)
    (hhole : (c :: es)[if c.isTrue then 1 else 2]? = some hole) :
    Form.perform eval i operands span .ifElse = pure (.eval hole i) := by
  have hlength : Form.checkLength operands 2 (some 3) = .ok () :=
    Form.checkLength_of_list? h (Nat.succ_le_succ hleast)
      fun _ h => by cases h; exact Nat.succ_le_succ hmost
  have hcar : operands.car? = some c := by
    obtain ⟨id, rest, ospan, rfl, _⟩ := Value.list?_eq_cons h
    rfl
  simp only [Form.perform, hlength, Action.ofExcept_ok, pure_bind, hcar, Form.evalOption,
    heval c i hc, Value.elements_of_list? h, hhole]

theorem perform_letIn (heval : eval.KeepsConstants) {bindings : List (String × Value)}
    (hbindings : Bindable bindings) (hcs : ∀ c ∈ cs, c.IsConstant) {list : Value}
    (hlist : list.list? = some vs)
    (hvs : List.Forall₂ (fun v (b : String × Value) =>
      ∃ span, v.list? = some [.symbol b.1 span, b.2]) vs bindings)
    (h : operands.list? = some (list :: (cs ++ [hole]))) :
    Form.perform eval i operands span .letIn = do
      return .eval hole (← Action.newFrame ⟨some i, bindings⟩) := by
  have hlength : Form.checkLength operands 2 none = .ok () :=
    Form.checkLength_of_list? h (by simp) fun _ h => by cases h
  have hmade : Form.letBindings eval i [] vs = pure bindings :=
    Form.letBindings_constants heval (fun b hb => (hbindings.truths b hb).toIsConstant)
      hbindings.nodup hvs
  obtain ⟨id, rest, ospan, rfl, hrest⟩ := Value.list?_eq_cons h
  simp only [Form.perform, hlength, Action.ofExcept_ok, pure_bind, Form.uncons,
    Value.isProper_of_list? hlist, Value.elements_of_list? hlist, hmade,
    Value.elements_of_list? hrest, Form.body_constants heval hcs]
  rfl

theorem perform_begin (heval : eval.KeepsConstants) (hcs : ∀ c ∈ cs, c.IsConstant)
    (h : operands.list? = some (cs ++ [hole])) :
    Form.perform eval i operands span .begin = do return .done (← eval hole i) := by
  have hlength : Form.checkLength operands 1 none = .ok () :=
    Form.checkLength_of_list? h (by simp) fun _ h => by cases h
  simp only [Form.perform, hlength, Action.ofExcept_ok, pure_bind, Value.elements_of_list? h,
    Form.sequence_constants heval hcs]

end

/-- A step on a layer leaves the hole in tail position to be evaluated, and evaluates one in
another position. -/
theorem step_eq {l : Layer} {outer hole : Value} {eval : Evaluation} (h : l.Around outer hole)
    (heval : eval.TakesSteps) (i : FrameId) (σ : State) :
    Eval.step eval outer i σ =
      if l.isTail then .value (.eval hole (l.enter i σ).1) (l.enter i σ).2
      else (do return Next.done (← eval hole i) : Action Next) σ := by
  have hconstants := heval.keepsConstants
  cases l with
  | ifThen c =>
      obtain ⟨hc, houter⟩ := h
      obtain ⟨rest, span, hrest, hstep⟩ := Form.step_eq_perform houter
      rw [hstep, perform_ifElse hconstants hc.toIsConstant hrest (by simp) (by simp)
        (by rw [hc.isTrue]; rfl)]
      rfl
  | ifThenElse c e =>
      obtain ⟨hc, houter⟩ := h
      obtain ⟨rest, span, hrest, hstep⟩ := Form.step_eq_perform houter
      rw [hstep, perform_ifElse hconstants hc.toIsConstant hrest (by simp) (by simp)
        (by rw [hc.isTrue]; rfl)]
      rfl
  | ifElse f e =>
      obtain ⟨hf, houter⟩ := h
      obtain ⟨rest, span, hrest, hstep⟩ := Form.step_eq_perform houter
      rw [hstep, perform_ifElse hconstants hf.isConstant hrest (by simp) (by simp)
        (by rw [hf.isTrue]; rfl)]
      rfl
  | condTest skipped c =>
      obtain ⟨hskipped, hc, clause, hclause, houter⟩ := h
      obtain ⟨rest, span, hrest, hstep⟩ := Form.step_eq_perform houter
      rw [hstep, Form.perform, Value.elements_of_list? hrest,
        Form.clauses_falsities hconstants _ hskipped, Form.clauses_truth hconstants hc hclause]
      rfl
  | condElse skipped =>
      obtain ⟨hskipped, clause, espan, hclause, houter⟩ := h
      obtain ⟨rest, span, hrest, hstep⟩ := Form.step_eq_perform houter
      rw [hstep, Form.perform, Value.elements_of_list? hrest,
        Form.clauses_falsities hconstants _ hskipped, Form.clauses_else hclause]
      rfl
  | or fs =>
      obtain ⟨hfs, houter⟩ := h
      obtain ⟨rest, span, hrest, hstep⟩ := Form.step_eq_perform houter
      rw [hstep, Form.perform, Value.elements_of_list? hrest,
        Form.disjunction_falsities hconstants hfs]
      rfl
  | letIn bindings cs =>
      obtain ⟨hbindings, hcs, list, vs, hlist, hvs, houter⟩ := h
      obtain ⟨rest, span, hrest, hstep⟩ := Form.step_eq_perform houter
      rw [hstep, perform_letIn hconstants hbindings (fun c hc => (hcs c hc).toIsConstant) hlist
        hvs hrest]
      rfl
  | lambda bindings =>
      obtain ⟨hbindings, head, formals, hhead, hformals, houter⟩ := h
      obtain ⟨span, hlambda⟩ := Form.step_lambda hhead hformals hbindings.nodup i σ
      exact Eval.step_call_constants hconstants houter hhead.symbol? (heval _ _ _ _ _ hlambda)
        rfl rfl hformals hbindings.nodup fun b hb => (hbindings.truths b hb).toIsConstant
  | mu bindings =>
      obtain ⟨hbindings, head, formals, hhead, hformals, houter⟩ := h
      obtain ⟨span, hmu⟩ := Form.step_mu hhead hformals hbindings.nodup i σ
      exact Eval.step_call_constants hconstants houter hhead.symbol? (heval _ _ _ _ _ hmu)
        rfl rfl hformals hbindings.nodup fun b hb => (hbindings.truths b hb).toIsConstant
  | begin cs =>
      obtain ⟨hcs, houter⟩ := h
      obtain ⟨rest, span, hrest, hstep⟩ := Form.step_eq_perform houter
      rw [hstep, perform_begin hconstants (fun c hc => (hcs c hc).toIsConstant) hrest]
      rfl
  | and cs =>
      obtain ⟨hcs, houter⟩ := h
      obtain ⟨rest, span, hrest, hstep⟩ := Form.step_eq_perform houter
      rw [hstep, Form.perform, Value.elements_of_list? hrest,
        Form.conjunction_truths hconstants hcs]
      rfl

/-! ## The cost of a layer -/

/-- By how many levels the hole is deeper than the whole. -/
def cost (strategy : Strategy) (l : Layer) : Nat :=
  match strategy with
  | .tailCall => if l.isTail then 0 else 1
  | .recursive => 1

/-- An operand is evaluated where the whole is. -/
theorem enter_of_not_tail {l : Layer} (h : l.isTail = false) (i : FrameId) (σ : State) :
    l.enter i σ = (i, σ) := by
  cases l <;> first | rfl | cases h

theorem cost_le_one (strategy : Strategy) (l : Layer) : l.cost strategy ≤ 1 := by
  cases strategy with
  | recursive => exact Nat.le_refl 1
  | tailCall =>
      rw [cost]
      split
      · exact Nat.zero_le 1
      · exact Nat.le_refl 1

section

open Eval

variable {l : Layer} {outer hole : Value} {s : Settings} {level : Nat}

/-- Where there is room for the constants, an evaluation goes on with the hole. -/
theorem nested_eq (h : l.Around outer hole) (hroom : level + 1 < s.limit) (budget : Nat)
    (i : FrameId) (σ : State) :
    nested s (budget + 2) level outer i σ =
      nested s (budget + 1) (level + l.cost s.strategy) hole (l.enter i σ).1 (l.enter i σ).2 := by
  have hlevel : level < s.limit := Nat.lt_of_succ_lt hroom
  have hstep := l.step_eq h (nested_takesSteps hroom budget) i σ
  rw [nested_of_lt hlevel, run_succ, hstep]
  -- The strategy is asked only about a hole that a step leaves, and that is one in tail position.
  cases htail : l.isTail with
  | true =>
      rw [if_pos rfl]
      obtain ⟨strategy, limit⟩ := s
      cases strategy with
      | tailCall =>
          have hcost : l.cost .tailCall = 0 := if_pos htail
          rw [hcost, Nat.add_zero]
          exact (congrFun (congrFun (congrFun (nested_of_lt hlevel _) hole) _) _).symm
      | recursive => rfl
  | false =>
      have hcost : l.cost s.strategy = 1 := by cases s.strategy <;> simp [cost, htail]
      rw [if_neg Bool.false_ne_true, hcost, l.enter_of_not_tail htail, Action.bind_apply]
      cases nested s (budget + 1) (level + 1) hole i σ <;> rfl

theorem Around.ends_iff (h : l.Around outer hole) (hroom : level + 1 < s.limit) (i : FrameId)
    (σ : State) (r : Ending Value) :
    Ends s level outer i σ r ↔
      Ends s (level + l.cost s.strategy) hole (l.enter i σ).1 (l.enter i σ).2 r := by
  constructor
  · rintro ⟨hne, budget, hr⟩
    have hmore := nested_stable hr hne (Nat.le_add_right budget 2)
    rw [nested_eq h hroom] at hmore
    exact ⟨hne, budget + 1, hmore⟩
  · rintro ⟨hne, budget, hr⟩
    have hmore := nested_stable hr hne (Nat.le_add_right budget 1)
    rw [← nested_eq h hroom] at hmore
    exact ⟨hne, budget + 2, hmore⟩

end

/-! ## Stacks of layers -/

/-- The first expression is the layers around the second one, from the outermost to the
innermost. -/
def Stacked : List Layer → Value → Value → Prop
  | [], outer, e => outer = e
  | l :: ls, outer, e => ∃ hole, l.Around outer hole ∧ Stacked ls hole e

/-- The innermost frame and the state there. -/
def enterAll : List Layer → FrameId → State → FrameId × State
  | [], i, σ => (i, σ)
  | l :: ls, i, σ => enterAll ls (l.enter i σ).1 (l.enter i σ).2

/-- By how many levels the innermost expression is deeper than the whole. -/
def costs (strategy : Strategy) : List Layer → Nat
  | [] => 0
  | l :: ls => l.cost strategy + costs strategy ls

theorem costs_recursive (ls : List Layer) :
    costs .recursive ls = ls.countP isTail + ls.countP fun l => !l.isTail := by
  induction ls with
  | nil => rfl
  | cons l ls ih =>
      rw [costs, ih, cost, List.countP_cons, List.countP_cons]
      cases l.isTail <;> simp <;> omega

theorem costs_tailCall (ls : List Layer) :
    costs .tailCall ls = ls.countP fun l => !l.isTail := by
  induction ls with
  | nil => rfl
  | cons l ls ih =>
      rw [costs, ih, cost, List.countP_cons, Nat.add_comm]
      cases l.isTail <;> rfl

open Eval in
theorem stacked_ends_iff_costs {s : Settings} {ls : List Layer} {outer e : Value}
    (h : Stacked ls outer e) {level : Nat} (hroom : level + ls.length < s.limit) (i : FrameId)
    (σ : State) (r : Ending Value) :
    Ends s level outer i σ r ↔
      Ends s (level + costs s.strategy ls) e (enterAll ls i σ).1 (enterAll ls i σ).2 r := by
  induction ls generalizing outer level i σ with
  | nil =>
      cases h
      rfl
  | cons l ls ih =>
      obtain ⟨hole, hl, hls⟩ := h
      have hcost := l.cost_le_one s.strategy
      rw [List.length_cons] at hroom
      rw [hl.ends_iff (by omega), ih hls (by omega), costs, Nat.add_assoc]
      rfl

/-- An expression in `n` tail positions and `k` others, in any order one around the other: the
whole comes to the end that the expression comes to in the innermost frame, `k` levels deeper
under `tailCall` and `n + k` levels deeper under `recursive`. -/
theorem stacked_ends_iff {ls : List Layer} {outer e : Value} (h : Stacked ls outer e) {n k : Nat}
    (hn : ls.countP isTail = n) (hk : (ls.countP fun l => !l.isTail) = k) {limit level : Nat}
    (hroom : n + k + 1 ≤ limit - level) (i : FrameId) (σ : State) (r : Ending Value) :
    (Eval.Ends ⟨.tailCall, limit⟩ level outer i σ r ↔
        Eval.Ends ⟨.tailCall, limit⟩ (level + k) e (enterAll ls i σ).1 (enterAll ls i σ).2 r) ∧
      (Eval.Ends ⟨.recursive, limit⟩ level outer i σ r ↔
        Eval.Ends ⟨.recursive, limit⟩ (level + (n + k)) e (enterAll ls i σ).1
          (enterAll ls i σ).2 r) := by
  have hlength : ls.length = n + k := by
    have hsplit := List.length_eq_countP_add_countP isTail (l := ls)
    simpa [hn, hk] using hsplit
  have hroom' : level + ls.length < limit := by omega
  constructor
  · have htail := stacked_ends_iff_costs (s := ⟨.tailCall, limit⟩) h hroom' i σ r
    rwa [costs_tailCall, hk] at htail
  · have hrecursive := stacked_ends_iff_costs (s := ⟨.recursive, limit⟩) h hroom' i σ r
    rwa [costs_recursive, hn, hk] at hrecursive

section

/-- `(begin "a" ((mu (x) (if #t x)) "b"))` -/
def nestedName : Value :=
  .ofList [.symbol "begin" .none, .string "a" .none,
    .ofList [.ofList [.symbol "mu" .none, .ofList [.symbol "x" .none],
      .ofList [.symbol "if" .none, .boolean true .none, .symbol "x" .none]], .string "b" .none]]

/-- The layers of `nestedName` around the name. -/
def nestedNameLayers : List Layer :=
  [.begin [.string "a" .none], .mu [("x", .string "b" .none)], .ifThen (.boolean true .none)]

theorem nestedName_stacked : Stacked nestedNameLayers nestedName (.symbol "x" .none) := by
  refine ⟨_, ⟨?_, .none, rfl⟩, _, ⟨⟨?_, ?_⟩, _, _, ⟨.none, rfl⟩, .cons _ _ _ _ (.nil _), rfl⟩,
    _, ⟨⟨⟨rfl, rfl⟩, rfl⟩, .none, rfl⟩, rfl⟩
  · exact List.forall_mem_singleton.mpr ⟨⟨rfl, rfl⟩, rfl⟩
  · simp
  · exact List.forall_mem_singleton.mpr ⟨⟨rfl, rfl⟩, rfl⟩

theorem stacked_ends_iff_nestedName :
    Stacked nestedNameLayers nestedName (.symbol "x" .none) ∧ 2 + 1 + 1 ≤ 4 - 0 ∧
    ∀ i σ r,
      (Eval.Ends ⟨.tailCall, 4⟩ 0 nestedName i σ r ↔
        Eval.Ends ⟨.tailCall, 4⟩ 1 (.symbol "x" .none) σ.frames.size
          ({ σ with made := σ.made + 1 }.push ⟨some i, [("x", .string "b" .none)]⟩) r) ∧
      (Eval.Ends ⟨.recursive, 4⟩ 0 nestedName i σ r ↔
        Eval.Ends ⟨.recursive, 4⟩ 3 (.symbol "x" .none) σ.frames.size
          ({ σ with made := σ.made + 1 }.push ⟨some i, [("x", .string "b" .none)]⟩) r) :=
  ⟨nestedName_stacked, by decide, stacked_ends_iff nestedName_stacked rfl rfl (by decide)⟩

end

end Layer

end DualScope
