import DualScope.Proofs.Steps

/-!
# Definitions of procedures

`(define (f x ...) b ...)` is short for `(define f (lambda (x ...) b ...))`, but the two are not
evaluated in the same way. The long form evaluates the `lambda` one level deeper, like any other
expression. The short form makes the closure by itself, from operands that it puts together, and
does not see whether it has a name to bind before the closure is there.

Both come to the same: they check the formals, and either stop there, before anything happened, or
give out one identity and bind one name. What the short form makes stands where the whole
definition does, and what the long form makes where the `lambda` is.
-/

namespace DualScope

/-! ## The expressions -/

namespace Value

/-- `(lambda formals b ...)`, where `rest` is the list of the body. -/
def IsLambda (x formals rest : Value) : Prop :=
  ∃ id nspan oid ospan span,
    x = .pair id (.symbol Form.lambda.name nspan) (.pair oid formals rest ospan) span

/-- `(define (target . formals) b ...)` -/
def IsShorthand (x target formals rest : Value) : Prop :=
  ∃ id nspan oid tid tspan ospan span,
    x = .pair id (.symbol Form.define.name nspan)
      (.pair oid (.pair tid target formals tspan) rest ospan) span

theorem IsForm.isShorthand {x target formals : Value} {id : Identity} {span : Span}
    {bodies : List Value} (h : x.IsForm .define (.pair id target formals span :: bodies)) :
    ∃ rest, rest.list? = some bodies ∧ x.IsShorthand target formals rest := by
  obtain ⟨xid, nspan, operands, xspan, rfl, hoperands⟩ := h.eq_pair
  obtain ⟨oid, rest, ospan, rfl, hrest⟩ := list?_eq_cons hoperands
  exact ⟨rest, hrest, xid, nspan, oid, id, span, ospan, xspan, rfl⟩

end Value

/-! ## What their steps do -/

namespace Form

variable {x l target formals rest : Value} {bodies : List Value} {name : String} {nspan : Span}

section

variable (hrest : rest.list? = some bodies) (hbodies : bodies ≠ [])

include hrest hbodies

theorem makeLambda_eq (id : Identity) (ospan span : Span) (i : FrameId) :
    makeLambda i (.pair id formals rest ospan) span = do
      Action.ofExcept (checkFormals formals)
      return .lambda (← Action.freshIdentity) formals (bodyExpression rest) i span := by
  rw [makeLambda, procedureParts_eq hrest hbodies]
  cases checkFormals formals <;> rfl

theorem step_isLambda (hl : l.IsLambda formals rest) (eval : Evaluation) (i : FrameId) :
    Eval.step eval l i = do
      Action.ofExcept (checkFormals formals)
      return .done (.lambda (← Action.freshIdentity) formals (bodyExpression rest) i l.span) := by
  obtain ⟨id, nspan, oid, ospan, span, rfl⟩ := hl
  rw [step_form (list?_before_body hrest formals oid ospan), perform, makeLambda_eq hrest hbodies]
  simp only [bind_assoc, pure_bind]
  rfl

/-- The closure is there before the name is looked at. -/
theorem step_shorthand (hx : x.IsShorthand target formals rest) (eval : Evaluation) (i : FrameId) :
    Eval.step eval x i = do
      Action.ofExcept (checkFormals formals)
      let id ← Action.freshIdentity
      Action.define i target (.lambda id formals (bodyExpression rest) i x.span)
      return .done target := by
  obtain ⟨id, nspan, oid, tid, tspan, ospan, span, rfl⟩ := hx
  have hoperands := list?_before_body hrest (.pair tid target formals tspan) oid ospan
  rw [step_form hoperands, perform, definition, checkLength_before_body hrest hbodies]
  simp only [uncons, Action.ofExcept_ok, pure_bind, makeLambda_eq hrest hbodies, bind_assoc]
  rfl

end

/-- The expression behind a name is evaluated, and bound. -/
theorem step_define_symbol (hx : x.IsForm .define [.symbol name nspan, l]) (eval : Evaluation)
    (i : FrameId) :
    Eval.step eval x i = do
      let v ← eval l i
      Action.bindIn i name v
      return .done (.symbol name nspan) := by
  obtain ⟨operands, span, hoperands, hstep⟩ := step_eq_perform hx
  have hlength (most : Option Nat) (hmost : ∀ bound, most = some bound → 2 ≤ bound) :
      checkLength operands 2 most = .ok () :=
    checkLength_of_list? hoperands (Nat.le_refl _) hmost
  obtain ⟨id, rest, ospan, rfl, hrest⟩ := Value.list?_eq_cons hoperands
  obtain ⟨id', rest', ospan', rfl, -⟩ := Value.list?_eq_cons hrest
  rw [hstep, perform, definition, hlength none fun _ h => by cases h]
  simp only [uncons, Action.ofExcept_ok, pure_bind, Value.car?, evalOption, bind_assoc,
    hlength (some 2) fun _ h => Nat.le_of_eq (Option.some.inj h)]

end Form

/-! ## What has changed behind them -/

/-- From the one state to the other the name has got the value in the frame, and no other binding
has changed, nor anything else but the number of identities given out. -/
structure State.Rebinds (σ τ : State) (i : FrameId) (name : String) (v : Value) : Prop where
  files : τ.files = σ.files
  texts : τ.texts = σ.texts
  log : τ.log = σ.log
  size : τ.frames.size = σ.frames.size
  parent : ∀ j, (τ.frames.get? j).map Frame.parent = (σ.frames.get? j).map Frame.parent
  binding : ∀ j n, (τ.frames.get? j).bind (·.find? n) =
    if j = i ∧ n = name then some v else (σ.frames.get? j).bind (·.find? n)

theorem State.rebinds_bind {σ : State} {i : FrameId} (hi : i < σ.frames.size) (name : String)
    (v : Value) (made : Nat) :
    σ.Rebinds { σ with made := made, frames := σ.frames.bind i name v } i name v where
  files := rfl
  texts := rfl
  log := rfl
  size := Frames.size_bind ..
  parent j := by
    rw [Frames.get?_bind]
    split
    · cases σ.frames.get? j <;> rfl
    · rfl
  binding j n := by
    rw [Frames.get?_bind]
    by_cases hj : j = i
    · subst hj
      obtain ⟨f, hf⟩ := Option.isSome_iff_exists.mp (Frames.get?_isSome.mpr hi)
      simp only [hf, if_true, Option.map_some, Option.bind_some, Frame.find?_bind, true_and]
    · rw [if_neg fun h => hj h.symm, if_neg fun h => hj h.1]

namespace Eval

variable {x y l formals rest : Value} {bodies : List Value} {name : String} {nspan : Span}
  {s : Settings} {level : Nat} {i : FrameId} {σ : State}

/-- The state behind the definition of a procedure that stands at `span`. -/
def defined (σ : State) (i : FrameId) (name : String) (formals rest : Value) (span : Span) :
    State :=
  { σ with
    made := σ.made + 1
    frames := σ.frames.bind i name
      (.lambda (.made σ.made) formals (Form.bodyExpression rest) i span) }

section

variable (hrest : rest.list? = some bodies) (hbodies : bodies ≠ [])

include hrest hbodies

/-- The short form ends by its own step. -/
theorem shorthand_ends (hx : x.IsShorthand (.symbol name nspan) formals rest)
    (hlevel : level < s.limit) :
    Ends s level x i σ (match Form.checkFormals formals with
      | .error e => .error e σ
      | .ok () => .value (.symbol name nspan) (defined σ i name formals rest x.span)) := by
  have hstep := congrFun (Form.step_shorthand hrest hbodies hx (nested s 0 (level + 1)) i) σ
  cases hcheck : Form.checkFormals formals with
  | error e => exact ends_of_step_error hlevel (hstep.trans (by rw [hcheck]; rfl))
  | ok _ => exact ends_of_step hlevel (hstep.trans (by rw [hcheck]; rfl))

theorem isLambda_ends (hl : l.IsLambda formals rest) (hlevel : level < s.limit) :
    Ends s level l i σ (match Form.checkFormals formals with
      | .error e => .error e σ
      | .ok () => .value (.lambda (.made σ.made) formals (Form.bodyExpression rest) i l.span)
        { σ with made := σ.made + 1 }) := by
  have hstep := congrFun (Form.step_isLambda hrest hbodies hl (nested s 0 (level + 1)) i) σ
  cases hcheck : Form.checkFormals formals with
  | error e => exact ends_of_step_error hlevel (hstep.trans (by rw [hcheck]; rfl))
  | ok _ => exact ends_of_step hlevel (hstep.trans (by rw [hcheck]; rfl))

/-- The long form goes one level down to its `lambda`. -/
theorem definition_ends (hl : l.IsLambda formals rest)
    (hy : y.IsForm .define [.symbol name nspan, l]) (hroom : level + 1 < s.limit) :
    Ends s level y i σ (match Form.checkFormals formals with
      | .error e => .error e σ
      | .ok () => .value (.symbol name nspan) (defined σ i name formals rest l.span)) := by
  obtain ⟨-, budget, hl⟩ := isLambda_ends (σ := σ) (i := i) hrest hbodies hl hroom
  have hstep := congrFun (Form.step_define_symbol hy (nested s budget (level + 1)) i) σ
  rw [Action.bind_apply, hl] at hstep
  cases hcheck : Form.checkFormals formals with
  | error e => exact ends_of_step_error (Nat.lt_of_succ_lt hroom) (hstep.trans (by rw [hcheck]))
  | ok _ => exact ends_of_step (Nat.lt_of_succ_lt hroom) (hstep.trans (by rw [hcheck]; rfl))

end

/-- With room for two levels, the short definition of a procedure and the long one, made of the same
parts, come to the same. If something is wrong with the formals, both fail with this error and
change nothing. Otherwise both have the name for their value and have bound it, and nothing else,
in the frame, to closures of this frame that differ in their spans alone. -/
theorem shorthand_is_definition (hrest : rest.list? = some bodies) (hbodies : bodies ≠ [])
    (hx : x.IsShorthand (.symbol name nspan) formals rest) (hl : l.IsLambda formals rest)
    (hy : y.IsForm .define [.symbol name nspan, l]) (hroom : level + 2 ≤ s.limit)
    (hi : i < σ.frames.size) :
    (∀ e, Form.checkFormals formals = .error e →
      (∀ r, Ends s level x i σ r ↔ r = .error e σ) ∧
        ∀ r, Ends s level y i σ r ↔ r = .error e σ) ∧
    (Form.checkFormals formals = .ok () → ∃ id τ τ',
      (∀ r, Ends s level x i σ r ↔ r = .value (.symbol name nspan) τ) ∧
      (∀ r, Ends s level y i σ r ↔ r = .value (.symbol name nspan) τ') ∧
      σ.Rebinds τ i name (.lambda id formals (Form.bodyExpression rest) i x.span) ∧
      σ.Rebinds τ' i name (.lambda id formals (Form.bodyExpression rest) i l.span)) := by
  have hshort := shorthand_ends (i := i) (σ := σ) hrest hbodies hx (Nat.lt_of_succ_lt hroom)
  have hlong := definition_ends (i := i) (σ := σ) hrest hbodies hl hy hroom
  refine ⟨fun e hcheck => ?_, fun hcheck => ?_⟩
  · rw [hcheck] at hshort hlong
    exact ⟨fun _ => hshort.iff_eq, fun _ => hlong.iff_eq⟩
  · rw [hcheck] at hshort hlong
    exact ⟨.made σ.made, _, _, fun _ => hshort.iff_eq, fun _ => hlong.iff_eq,
      State.rebinds_bind hi name _ _, State.rebinds_bind hi name _ _⟩

section

/-- `(define (f . formals) a b)` -/
def shortForm (formals rest : Value) : Value :=
  .pair .anonymous (.symbol "define" .none)
    (.pair .anonymous (.pair .anonymous (.symbol "f" .none) formals .none) rest .none) ⟨0, 24⟩

/-- `(lambda formals a b)` -/
def procedureForm (formals rest : Value) : Value :=
  .pair .anonymous (.symbol "lambda" .none) (.pair .anonymous formals rest .none) ⟨10, 32⟩

/-- `(define f (lambda formals a b))` -/
def longForm (formals rest : Value) : Value :=
  .ofList [.symbol "define" .none, .symbol "f" .none, procedureForm formals rest]

/-- With room for two levels and no more, both forms refuse the formals `(a a)` at the second `a`,
and both bind `f` to a procedure of `a` and `b` whose body is `(begin a b)`. -/
theorem shorthand_is_definition_twice :
    let σ := Session.start fun _ => .error .notFound
    let twice := Value.ofList [.symbol "a" ⟨11, 12⟩, .symbol "a" ⟨13, 14⟩]
    let both := Value.ofList [.symbol "a" ⟨11, 12⟩, .symbol "b" ⟨13, 14⟩]
    let rest := Value.ofList [.symbol "a" ⟨16, 17⟩, .symbol "b" ⟨18, 19⟩]
    let refused : Ending Value := .error (.duplicateFormal "a" ⟨13, 14⟩) σ
    (Ends ⟨.recursive, 2⟩ 0 (shortForm twice rest) 0 σ refused ∧
      Ends ⟨.recursive, 2⟩ 0 (longForm twice rest) 0 σ refused) ∧
    ∃ id τ τ', Ends ⟨.tailCall, 2⟩ 0 (shortForm both rest) 0 σ (.value (.symbol "f" .none) τ) ∧
      Ends ⟨.tailCall, 2⟩ 0 (longForm both rest) 0 σ (.value (.symbol "f" .none) τ') ∧
      σ.Rebinds τ 0 "f" (.lambda id both (Form.bodyExpression rest) 0 ⟨0, 24⟩) ∧
      σ.Rebinds τ' 0 "f" (.lambda id both (Form.bodyExpression rest) 0 ⟨10, 32⟩) := by
  intro σ twice both rest refused
  have hrest : rest.list? = some [.symbol "a" ⟨16, 17⟩, .symbol "b" ⟨18, 19⟩] :=
    Value.list?_ofList _
  have hx (formals : Value) :
      (shortForm formals rest).IsShorthand (.symbol "f" .none) formals rest :=
    ⟨_, _, _, _, _, _, _, rfl⟩
  have hl (formals : Value) : (procedureForm formals rest).IsLambda formals rest :=
    ⟨_, _, _, _, _, rfl⟩
  have hy (formals : Value) : (longForm formals rest).IsForm .define
      [.symbol "f" .none, procedureForm formals rest] := ⟨.none, rfl⟩
  have hroom : 0 + 2 ≤ 2 := Nat.le_refl 2
  have hi : 0 < σ.frames.size := Nat.zero_lt_one
  obtain ⟨hshort, hlong⟩ := (shorthand_is_definition (s := ⟨.recursive, 2⟩) hrest
    (List.cons_ne_nil _ _) (hx twice) (hl twice) (hy twice) hroom hi).1 _ rfl
  obtain ⟨id, τ, τ', hshort', hlong', hτ, hτ'⟩ := (shorthand_is_definition (s := ⟨.tailCall, 2⟩)
    hrest (List.cons_ne_nil _ _) (hx both) (hl both) (hy both) hroom hi).2 rfl
  exact ⟨⟨(hshort _).mpr rfl, (hlong _).mpr rfl⟩, id, τ, τ', (hshort' _).mpr rfl,
    (hlong' _).mpr rfl, hτ, hτ'⟩

end

end Eval

end DualScope
