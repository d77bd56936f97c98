import DualScope.Proofs.Steps

/-!
# `eval` and `apply`

`(eval (quote e))` is `e` evaluated one level deeper. `(apply p (quote (v ...)))` is
`(p (quote v) ...)`, with two differences: the call is made at the span of the procedure, and what
it leaves is evaluated one level deeper.

Where a call is made shows only in what the call itself makes or finds wrong. For a closure this is
the number of arguments, as its body is evaluated in a frame that tells nothing of the call. For a
primitive it is the new value or the fault; whatever it evaluates or only hands on stays as it is.
How deep a call goes on shows only at the limit.
-/

namespace DualScope

/-! ## Arguments as a list -/

/-- Of the arguments only the elements are bound. -/
theorem matchFormals_of_list? {args args' : Value} {vs : List Value} (h : args.list? = some vs)
    (h' : args'.list? = some vs) (formals : Value) (made : List (String × Value)) :
    matchFormals made formals args = matchFormals made formals args' := by
  induction vs generalizing args args' formals made with
  | nil =>
      obtain ⟨span, rfl⟩ := Value.list?_eq_nil h
      obtain ⟨span', rfl⟩ := Value.list?_eq_nil h'
      cases formals with
      | pair id target formals fspan => cases target <;> rfl
      | _ => rfl
  | cons v vs ih =>
      obtain ⟨id, rest, span, rfl, hrest⟩ := Value.list?_eq_cons h
      obtain ⟨id', rest', span', rfl, hrest'⟩ := Value.list?_eq_cons h'
      cases formals with
      | pair fid target formals fspan =>
          cases target with
          | symbol name nspan => exact ih hrest hrest' formals _
          | _ => rfl
      | _ => rfl

/-! ## Outcomes up to one span -/

/-- The same value, but that it may be at `t` where the first one is at `s`. -/
inductive Value.Moved (s t : Span) : Value → Value → Prop
  | same (v : Value) : Moved s t v v
  | moved (v : Value) : Moved s t (v.withSpan s) (v.withSpan t)

/-- The same error, but that it may be at `t` where the first one is at `s`, if it is one of the
errors of a call. -/
inductive EvalError.Moved (s t : Span) : EvalError → EvalError → Prop
  | same (e : EvalError) : Moved s t e e
  | argumentCount (expected found : Nat) :
    Moved s t (.argumentCount expected found s) (.argumentCount expected found t)
  | primitive (p : Primitive) (f : Fault) : Moved s t (.primitive p f s) (.primitive p f t)

inductive Next.Moved (s t : Span) : Next → Next → Prop
  | done {v w : Value} : v.Moved s t w → Moved s t (.done v) (.done w)
  | eval (e : Value) (i : FrameId) : Moved s t (.eval e i) (.eval e i)

/-- Results that `P` relates, or the same error up to its span, in the same state. -/
inductive Ending.Moved (s t : Span) (P : α → α → Prop) : Ending α → Ending α → Prop
  | value {a b : α} (σ : State) : P a b → Moved s t P (.value a σ) (.value b σ)
  | error {e e' : EvalError} (σ : State) : e.Moved s t e' → Moved s t P (.error e σ) (.error e' σ)
  | cutShort : Moved s t P .cutShort .cutShort

def Action.Moved (s t : Span) (P : α → α → Prop) (x y : Action α) : Prop :=
  ∀ σ, (x σ).Moved s t P (y σ)

variable {s t : Span}

theorem EvalError.Moved.isTooDeep {e e' : EvalError} (h : e.Moved s t e') :
    e'.isTooDeep = e.isTooDeep := by
  cases h <;> rfl

theorem Ending.Moved.cutShort_iff {P : α → α → Prop} {r r' : Ending α} (h : r.Moved s t P r') :
    r = .cutShort ↔ r' = .cutShort := by
  cases h with
  | cutShort => exact ⟨fun _ => rfl, fun _ => rfl⟩
  | _ => exact ⟨(nomatch ·), (nomatch ·)⟩

theorem Ending.Moved.shallow {P : α → α → Prop} {r r' : Ending α} {σ : State}
    (h : r.Moved s t P r') (hr' : r'.Shallow σ) : r.Shallow σ := by
  cases h with
  | value σ' _ => exact hr'
  | error σ' he => exact ⟨he.isTooDeep ▸ hr'.1, hr'.2⟩
  | cutShort => exact hr'

namespace Action.Moved

variable {P : α → α → Prop} {Q : β → β → Prop}

theorem pure {a b : α} (h : P a b) : Action.Moved s t P (Pure.pure a) (Pure.pure b) :=
  fun σ => .value σ h

theorem fail {e e' : EvalError} (h : e.Moved s t e') :
    Action.Moved s t P (Action.fail e) (Action.fail e') :=
  fun σ => .error σ h

theorem refl (hP : ∀ a, P a a) (x : Action α) : Action.Moved s t P x x := by
  intro σ
  cases x σ with
  | value a σ' => exact .value σ' (hP a)
  | error e σ' => exact .error σ' (.same e)
  | cutShort => exact .cutShort

theorem bind {x y : Action α} {f g : α → Action β} (h : x.Moved s t P y)
    (hfg : ∀ a b, P a b → (f a).Moved s t Q (g b)) : (x >>= f).Moved s t Q (y >>= g) := by
  intro σ
  have hends := h σ
  rw [bind_apply, bind_apply]
  generalize x σ = r at hends ⊢
  generalize y σ = r' at hends ⊢
  cases hends with
  | value σ' hab => exact hfg _ _ hab σ'
  | error σ' he => exact .error σ' he
  | cutShort => exact .cutShort

/-- The two differ only behind what both do first. -/
theorem behind (x : Action α) {f g : α → Action β} (hfg : ∀ a, (f a).Moved s t Q (g a)) :
    (x >>= f).Moved s t Q (x >>= g) :=
  .bind (.refl (fun _ => rfl) x) fun _ _ h => h ▸ hfg _

end Action.Moved

/-! ## Calls -/

namespace Primitive

theorem moved_ofFault (p : Primitive) (x : Except Fault α) {f g : α → Action β}
    {P : β → β → Prop} (hfg : ∀ a, (f a).Moved s t P (g a)) :
    (p.ofFault s x >>= f).Moved s t P (p.ofFault t x >>= g) := by
  cases x with
  | ok a => exact hfg a
  | error fault => exact .fail (.primitive p fault)

/-- What a primitive makes or finds wrong is at the call, and all else is the same. -/
theorem moved_call (eval : Evaluation) (i : FrameId) (p : Primitive) (args : List Value) :
    (p.call eval i s args).Moved s t (Value.Moved s t) (p.call eval i t args) := by
  have hfault : ∀ f, Action.Moved s t (Value.Moved s t) (p.fault s f) (p.fault t f) :=
    fun f => .fail (.primitive p f)
  have hsame : ∀ x : Action Value, x.Moved s t (Value.Moved s t) x := .refl .same
  have hmade : ∀ v : Value,
      Action.Moved s t (Value.Moved s t) (pure (v.withSpan s)) (pure (v.withSpan t)) :=
    fun v => .pure (.moved v)
  cases p with
  | arithmetic op => exact moved_ofFault _ _ fun x => hmade (.number x s)
  | comparison op => exact moved_ofFault _ _ fun b => hmade (.boolean b s)
  | test u =>
      rcases args with _ | ⟨v, _ | ⟨w, rest⟩⟩
      · exact hfault _
      · exact hmade (.boolean _ s)
      · exact hfault _
  | eq | equal =>
      rcases args with _ | ⟨v, _ | ⟨w, _ | ⟨x, rest⟩⟩⟩
      · exact hfault _
      · exact hfault _
      · exact hmade (.boolean _ s)
      · exact hfault _
  | cons =>
      rcases args with _ | ⟨v, _ | ⟨w, _ | ⟨x, rest⟩⟩⟩
      · exact hfault _
      · exact hfault _
      · exact .behind _ fun id => hmade (.pair id v w s)
      · exact hfault _
  | car | cdr =>
      rcases args with _ | ⟨v, _ | ⟨w, rest⟩⟩
      · exact hfault _
      · cases v with
        | pair id car cdr span => exact hsame _
        | _ => exact hfault _
      · cases v <;> exact hfault _
  | list =>
      cases args with
      | nil => exact hmade (.nil s)
      | cons v vs => exact hsame _
  | length =>
      rcases args with _ | ⟨v, _ | ⟨w, rest⟩⟩
      · exact hfault _
      · unfold call
        dsimp only
        split
        · exact hmade (.number _ s)
        · exact hfault _
      · exact hfault _
  | display | print =>
      rcases args with _ | ⟨v, _ | ⟨w, rest⟩⟩
      · exact hfault _
      · exact hsame _
      · exact hfault _
  | newline =>
      cases args with
      | nil => exact hsame _
      | cons v vs => exact hfault _
  | eval =>
      rcases args with _ | ⟨v, _ | ⟨w, rest⟩⟩
      · exact hfault _
      · exact hsame _
      · exact hfault _
  | apply => exact hfault _
  | load =>
      rcases args with _ | ⟨v, _ | ⟨w, _ | ⟨x, rest⟩⟩⟩
      · exact hfault _
      · exact .behind _ fun r => moved_ofFault _ r fun _ => hsame _
      · exact .behind _ fun r => moved_ofFault _ r fun _ => hsame _
      · exact hfault _

end Primitive

variable {args args' : Value} {vs : List Value}

theorem Action.moved_callFrame (parent : FrameId) (formals : Value) (h : args.list? = some vs)
    (h' : args'.list? = some vs) :
    (callFrame parent formals args s).Moved s t Eq (callFrame parent formals args' t) := by
  have hmatch := matchFormals_of_list? h h' formals []
  rw [callFrame, callFrame, callBindings, callBindings, hmatch, Value.elements_of_list? h,
    Value.elements_of_list? h']
  cases matchFormals [] formals args' with
  | error e => exact .fail (.same e)
  | ok found =>
      cases found with
      | some bindings => exact .refl (fun _ => rfl) _
      | none => exact .fail (.argumentCount _ _)

namespace Eval

variable (eval : Evaluation) (i : FrameId)

theorem apply_apply (inner : Value) {args list : Value} (pspan span : Span)
    (h : args.list? = some [inner, list]) :
    apply eval i args (.primitive .apply pspan) span =
      if list.isProper then do
        match ← apply eval i list inner inner.span with
        | .done v => return .done v
        | .eval e frame => return .done (← eval e frame)
      else Primitive.apply.fault span (.wrongType 1 .list list.kind) := by
  obtain ⟨id, rest, aspan, rfl, hrest⟩ := Value.list?_eq_cons h
  obtain ⟨id', tail, lspan, rfl, htail⟩ := Value.list?_eq_cons hrest
  obtain ⟨nspan, rfl⟩ := Value.list?_eq_nil htail
  exact apply.eq_1 ..

theorem apply_miscounted (pspan span : Span) (h : args.list? = some vs) (hvs : vs.length ≠ 2) :
    apply eval i args (.primitive .apply pspan) span =
      Primitive.apply.fault span (.arity Primitive.apply.arity vs.length) := by
  rw [apply.eq_2, h]
  rintro id inner id' list nspan lspan aspan rfl
  cases h
  exact hvs rfl

/-- Of a call only the elements of the arguments count, and where it stands shows in what it makes
or finds wrong by itself. -/
theorem moved_apply {p : Value} (hp : p.kind = .procedure) (h : args.list? = some vs)
    (h' : args'.list? = some vs) :
    (apply eval i args p s).Moved s t (Next.Moved s t) (apply eval i args' p t) := by
  have hsame : ∀ next : Next, next.Moved s t next := fun next => by
    cases next with
    | done v => exact .done (.same v)
    | eval e j => exact .eval e j
  cases p with
  | primitive p pspan =>
      by_cases happly : p = .apply
      · subst happly
        by_cases hvs : vs.length = 2
        · obtain ⟨inner, list, rfl⟩ := List.length_eq_two.mp hvs
          rw [apply_apply eval i inner pspan s h, apply_apply eval i inner pspan t h']
          split
          · exact .refl hsame _
          · exact .fail (.primitive .apply _)
        · rw [apply_miscounted eval i pspan s h hvs, apply_miscounted eval i pspan t h' hvs]
          exact .fail (.primitive .apply _)
      · rw [apply.eq_3 _ _ _ _ _ _ happly, apply.eq_3 _ _ _ _ _ _ happly, h, h']
        exact .bind (Primitive.moved_call eval i p vs) fun _ _ hv => .pure (.done hv)
  | lambda id formals body home span =>
      rw [apply.eq_4, apply.eq_4]
      exact .bind (Action.moved_callFrame home formals h h') fun _ _ hj => hj ▸ .pure (hsame _)
  | mu id formals body span =>
      rw [apply.eq_5, apply.eq_5]
      exact .bind (Action.moved_callFrame i formals h h') fun _ _ hj => hj ▸ .pure (hsame _)
  | _ => cases hp

end Eval

/-! ## The expressions -/

namespace Value

/-- `(eval (quote e))`, wherever it stands in a text. -/
def EvaluatesQuoted (x e : Value) : Prop :=
  ∃ span q, x.list? = some [.symbol "eval" span, q] ∧ q.IsForm .quote [e]

/-- `(apply p (quote (v ...)))` -/
def AppliesQuoted (x p : Value) (vs : List Value) : Prop :=
  ∃ span q list, x.list? = some [.symbol "apply" span, p, q] ∧ q.IsForm .quote [list] ∧
    list.list? = some vs

/-- `(p (quote v) ...)` -/
def CallsQuoted (y p : Value) (vs : List Value) : Prop :=
  ∃ qs, y.list? = some (p :: qs) ∧ List.Forall₂ (fun q v => q.IsForm .quote [v]) qs vs

theorem isConstant_of_procedure {p : Value} (hp : p.kind = .procedure) : p.IsConstant := by
  cases p <;> first | exact ⟨rfl, rfl⟩ | cases hp

end Value

namespace Eval

variable {s : Settings} {level : Nat} {i : FrameId} {σ : State} {r r' : Ending Value}
  {x y e p : Value} {pspan : Span}

/-! ## `eval` -/

/-- To evaluate a call of `eval` is to evaluate the datum one level deeper. -/
theorem nested_eval (heval : σ.frames.lookup "eval" i = some (.primitive .eval pspan))
    (hx : x.EvaluatesQuoted e) (budget : Nat) :
    nested s (budget + 1) level x i σ = nested s budget (level + 1) e i σ := by
  obtain ⟨span, q, hx, hq⟩ := hx
  by_cases hdeeper : level + 1 < s.limit
  · rw [nested_eq_conclude (Nat.lt_of_succ_lt hdeeper), step_call hx rfl]
    cases budget with
    | zero =>
        rw [nested_of_lt hdeeper]
        rfl
    | succ budget =>
        have hsteps := nested_takesSteps hdeeper budget
        rw [operands_pure (.cons (hsteps.quote hq i) .nil)]
        simp only [Action.bind_apply, hsteps.symbol heval, Action.pure_apply]
        change ((nested s (budget + 1) (level + 1) e i >>= fun v => pure (.done v)) >>=
          Next.conclude _) σ = _
        simp only [Action.bind_apply]
        cases nested s (budget + 1) (level + 1) e i σ <;> rfl
  · -- The call gets no further than to its callee, and the datum is refused as well.
    have hle : s.limit ≤ level + 1 := Nat.le_of_not_lt hdeeper
    rw [nested_call_of_le hx rfl hle, nested_of_le hle]
    rfl

theorem ends_eval_iff (heval : σ.frames.lookup "eval" i = some (.primitive .eval pspan))
    (hx : x.EvaluatesQuoted e) : Ends s level x i σ r ↔ Ends s (level + 1) e i σ r := by
  constructor
  · intro h
    obtain ⟨budget, hrun⟩ := h.exists_budget 1
    exact ⟨h.1, budget, nested_eval heval hx budget ▸ hrun⟩
  · rintro ⟨hr, budget, hrun⟩
    exact ⟨hr, budget + 1, nested_eval heval hx budget ▸ hrun⟩

/-! ## `apply` -/

section

variable (happly : σ.frames.lookup "apply" i = some (.primitive .apply pspan))
  (hx : x.AppliesQuoted p vs) (hy : y.CallsQuoted p vs) (hp : p.kind = .procedure)

include happly hx hp in
/-- What a call of `apply` leaves is seen to one level deeper. -/
theorem nested_apply (hlevel : level + 1 < s.limit) :
    ∃ args : Value, args.list? = some vs ∧ ∀ budget, nested s (budget + 2) level x i σ =
      (apply (nested s (budget + 1) (level + 1)) i args p p.span >>=
        Next.conclude (nested s (budget + 1) (level + 1))) σ := by
  obtain ⟨span, q, list, hx, hq, hlist⟩ := hx
  refine ⟨list, hlist, fun budget => ?_⟩
  have hsteps := nested_takesSteps hlevel budget
  have hp' := hsteps.keepsConstants p i (Value.isConstant_of_procedure hp)
  have hoperands := operands_pure (.cons hp' (.cons (hsteps.quote hq i) .nil)) []
  rw [nested_eq_conclude (Nat.lt_of_succ_lt hlevel), step_call hx rfl, hoperands]
  simp only [Action.bind_apply, hsteps.symbol happly, Action.pure_apply]
  rw [apply_apply _ i p pspan x.span rfl, if_pos (Value.isProper_of_list? hlist)]
  simp only [Action.bind_apply]
  cases apply (nested s (budget + 1) (level + 1)) i list p p.span σ with
  | value next σ₁ =>
      cases next with
      | done v => rfl
      | eval e j =>
          simp only [Action.bind_apply, Next.conclude]
          cases nested s (budget + 1) (level + 1) e j σ₁ <;> rfl
  | _ => rfl

include hy hp in
theorem nested_call (hlevel : level + 1 < s.limit) (budget : Nat) :
    nested s (budget + 2) level y i =
      apply (nested s (budget + 1) (level + 1)) i (.ofList vs) p y.span >>=
        Next.conclude (onward s (budget + 1) (level + 1)) := by
  obtain ⟨qs, hy, hqs⟩ := hy
  have hsteps := nested_takesSteps hlevel budget
  have hp' := Value.isConstant_of_procedure hp
  have hoperands := operands_pure (hqs.imp fun q v hq => hsteps.quote hq i) []
  rw [nested_eq_conclude (Nat.lt_of_succ_lt hlevel), step_call hy (by rw [hp'.symbol]; rfl),
    hsteps.keepsConstants p i hp', hoperands]
  rfl

/-- With what they leave seen to in the same way, the two calls differ in their spans only. -/
theorem moved_call {args : Value} (hargs : args.list? = some vs) (hp : p.kind = .procedure)
    (s t : Span) (eval onward : Evaluation) (i : FrameId) :
    (apply eval i args p s >>= Next.conclude onward).Moved s t (Value.Moved s t)
      (apply eval i (.ofList vs) p t >>= Next.conclude onward) := by
  refine .bind (moved_apply eval i hp hargs (Value.list?_ofList vs)) fun _ _ hnext => ?_
  cases hnext with
  | done hv => exact .pure hv
  | eval e j => exact .refl .same _

theorem conclude_agrees {eval onward eval' onward' : Evaluation} {args : Value} {span : Span}
    (heval : Pairing.shallow.Evaluations eval eval')
    (honward : Pairing.shallow.Evaluations onward onward')
    (hr : ((apply eval i args p span >>= Next.conclude onward) σ).Shallow σ) :
    (apply eval' i args p span >>= Next.conclude onward') σ =
      (apply eval i args p span >>= Next.conclude onward) σ := by
  have hat := Pairing.shallow_at i σ
  have hfine := Discipline.any_fine σ.frames.size
  have happly := heval.apply hat span (hfine args) (hfine p)
  exact (happly.go_on hat honward).agrees hr

include happly hx hy hp

theorem call_ends_of_apply (h : Ends s level x i σ r) (hr : r.Shallow σ) :
    ∃ r', Ends s level y i σ r' ∧ r.Moved p.span y.span (Value.Moved p.span y.span) r' := by
  have hlevel : level + 1 < s.limit := by
    obtain ⟨span, q, list, hx, -⟩ := hx
    exact h.room_of_call hr hx rfl
  obtain ⟨args, hargs, hrun⟩ := nested_apply happly hx hp hlevel
  obtain ⟨budget, rfl⟩ := h.exists_budget 2
  rw [hrun] at hr
  have hagree := conclude_agrees (.nested_budget (Nat.le_refl _))
    (Pairing.shallow_nested_onward rfl (Nat.le_refl _) (Nat.le_refl _)) hr
  have hmoved := moved_call hargs hp p.span y.span (nested s (budget + 1) (level + 1))
    (onward s (budget + 1) (level + 1)) i σ
  rw [hagree, ← hrun, ← nested_call hy hp hlevel] at hmoved
  exact ⟨_, ⟨mt hmoved.cutShort_iff.mpr h.1, budget + 2, rfl⟩, hmoved⟩

theorem apply_ends_of_call (s' : Settings) (hs : s'.strategy = s.strategy)
    (hlimit : s.limit < s'.limit) (h : Ends s level y i σ r') (hr' : r'.Shallow σ) :
    ∃ r, Ends s' level x i σ r ∧ r.Moved p.span y.span (Value.Moved p.span y.span) r' := by
  have hlevel : level + 1 < s.limit := by
    obtain ⟨qs, hy, -⟩ := hy
    exact h.room_of_call hr' hy (by rw [(Value.isConstant_of_procedure hp).symbol]; rfl)
  obtain ⟨args, hargs, hrun⟩ := nested_apply happly hx hp (hlevel.trans hlimit)
  obtain ⟨budget, rfl⟩ := h.exists_budget 2
  have hmoved := moved_call hargs hp p.span y.span (nested s (budget + 1) (level + 1))
    (onward s (budget + 1) (level + 1)) i σ
  rw [← nested_call hy hp hlevel] at hmoved
  -- The call of `apply` sees to what is left one level deeper, and for this there is room.
  have hnested : Pairing.shallow.Evaluations (nested s (budget + 1) (level + 1))
      (nested s' (budget + 1) (level + 1)) :=
    Pairing.shallow_nested hs (Nat.le_refl _) (by omega)
  have honward : Pairing.shallow.Evaluations (onward s (budget + 1) (level + 1))
      (nested s' (budget + 1) (level + 1)) :=
    Pairing.shallow_onward_nested hs (Nat.le_refl _) (by omega)
  rw [← conclude_agrees hnested honward (hmoved.shallow hr'), ← hrun] at hmoved
  exact ⟨_, ⟨mt hmoved.cutShort_iff.mp h.1, budget + 2, rfl⟩, hmoved⟩

end

/-! ## Reflection -/

/-- Where the names `eval` and `apply` have their first meaning, a call of `eval` with a datum has
the end that the datum has one level deeper, at the limit, too, where it is refused. A call of
`apply` with a procedure and data has the end of the call of this procedure with these data, if no
limit is in the way of the one or the other; only the span of what the application itself makes or
finds wrong may be another one. -/
theorem eval_apply_reflect {espan aspan : Span}
    (heval : σ.frames.lookup "eval" i = some (.primitive .eval espan))
    (happly : σ.frames.lookup "apply" i = some (.primitive .apply aspan)) (s : Settings)
    (level : Nat) :
    (∀ x e : Value, x.EvaluatesQuoted e →
      ∀ r, Ends s level x i σ r ↔ Ends s (level + 1) e i σ r) ∧
    ∀ (x y p : Value) (vs : List Value), p.kind = .procedure → x.AppliesQuoted p vs →
      y.CallsQuoted p vs → Unhindered s level x i σ → Unhindered s level y i σ →
        ((∃ r, Ends s level x i σ r) ↔ ∃ r', Ends s level y i σ r') ∧
          ∀ r r', Ends s level x i σ r → Ends s level y i σ r' →
            r.Moved p.span y.span (Value.Moved p.span y.span) r' := by
  refine ⟨fun x e hx r => ends_eval_iff heval hx, ?_⟩
  intro x y p vs hp hx hy hfree hfree'
  have hcall : ∀ r, Ends s level x i σ r → ∃ r', Ends s level y i σ r' ∧
      r.Moved p.span y.span (Value.Moved p.span y.span) r' :=
    fun r h => call_ends_of_apply happly hx hy hp h (h.unhindered_iff.mp hfree)
  refine ⟨⟨fun ⟨r, h⟩ => (hcall r h).imp fun _ => And.left, fun ⟨r', h⟩ => ?_⟩, ?_⟩
  · obtain ⟨r, hr, -⟩ := apply_ends_of_call happly hx hy hp ⟨s.strategy, s.limit + 1⟩
      (by rfl) (Nat.lt_succ_self s.limit) h (h.unhindered_iff.mp hfree')
    exact ⟨r, hfree.ends (Nat.le_succ _) hr⟩
  · intro r r' hr hr'
    obtain ⟨r₁, hr₁, hmoved⟩ := hcall r hr
    rw [hr₁.unique hr']
    exact hmoved

section

def quoted (v : Value) : Value :=
  .ofList [.symbol "quote" .none, v]

/-- The procedure `cdr` as it is found in a text. -/
def cdrFound : Value :=
  .primitive .cdr ⟨1, 4⟩

/-- `(apply cdr (quote (())))` -/
def applyCdr : Value :=
  .ofList [.symbol "apply" .none, cdrFound, quoted (.ofList [.nil .none])]

/-- `(cdr (quote ()))` -/
def callCdr : Value :=
  .ofList [cdrFound, quoted (.nil .none)]

def cdrRefused (span : Span) : Ending Value :=
  .error (.primitive .cdr (.wrongType 0 .pair .nil) span) sampleStart

theorem callCdr_ends (limit : Nat) :
    Ends ⟨.tailCall, limit + 3⟩ 0 callCdr 0 sampleStart (cdrRefused callCdr.span) :=
  ⟨by simp [cdrRefused], 9, rfl⟩

/-- `(eval (quote (if #t (let ((x #t)) (newline) (cdr ())))))` -/
def evalSample : Value :=
  .ofList [.symbol "eval" .none, quoted sample]

theorem eval_apply_reflect_sample :
    Ends ⟨.tailCall, 4⟩ 0 evalSample 0 sampleStart sampleEnd ∧
      ∃ r, Ends ⟨.tailCall, 4⟩ 0 applyCdr 0 sampleStart r ∧
        r.Moved ⟨1, 4⟩ callCdr.span (Value.Moved ⟨1, 4⟩ callCdr.span)
          (cdrRefused callCdr.span) := by
  have happly : sampleStart.frames.lookup "apply" 0 = some (.primitive .apply .none) :=
    (Frames.lookup_of_orphan (f := .global) rfl rfl "apply").trans rfl
  have heval : sampleStart.frames.lookup "eval" 0 = some (.primitive .eval .none) :=
    (Frames.lookup_of_orphan (f := .global) rfl rfl "eval").trans rfl
  have hx : applyCdr.AppliesQuoted cdrFound [.nil .none] :=
    ⟨.none, _, _, rfl, ⟨.none, rfl⟩, rfl⟩
  have hy : callCdr.CallsQuoted cdrFound [.nil .none] := ⟨_, rfl, .cons ⟨.none, rfl⟩ .nil⟩
  have hshallow : (cdrRefused callCdr.span).Shallow sampleStart := ⟨rfl, by decide⟩
  obtain ⟨r, hr, hmoved⟩ := apply_ends_of_call happly hx hy rfl ⟨.tailCall, 4⟩ (by rfl)
    (Nat.lt_succ_self 3) (callCdr_ends 0) hshallow
  have hreflect := eval_apply_reflect heval happly ⟨.tailCall, 4⟩ 0
  have hends : Ends ⟨.tailCall, 4⟩ 1 sample 0 sampleStart sampleEnd :=
    ⟨by simp [sampleEnd], 20, rfl⟩
  refine ⟨(hreflect.1 evalSample sample ⟨.none, _, rfl, .none, rfl⟩ _).mpr hends, ?_⟩
  obtain ⟨hiff, hsame⟩ := hreflect.2 applyCdr callCdr cdrFound _ rfl hx hy
    (hr.unhindered_iff.mpr (hmoved.shallow hshallow)) ((callCdr_ends 1).unhindered_iff.mpr hshallow)
  obtain ⟨r₁, hr₁⟩ := hiff.mpr ⟨_, callCdr_ends 1⟩
  exact ⟨r₁, hr₁, hsame r₁ _ hr₁ (callCdr_ends 1)⟩

end

end Eval

end DualScope
