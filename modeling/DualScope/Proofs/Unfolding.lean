import DualScope.Proofs.Alike
import DualScope.Proofs.FormSteps
import DualScope.Proofs.LetCall

/-!
# Forms in terms of others

`cond`, `or` and `and` evaluate their first part, and where that does not decide they go on with
the others, which they do as a form with the other parts would. So each of them unfolds to a form
that evaluates the first part and leaves such a form behind. Under `tailCall` what is left is
evaluated at the same level, and the parts of it too are as deep as before. It takes one more step
to get there, and this is the only difference: it shows in the budget and nowhere else.

The parts may be anything, with effects and errors, and clauses behind the first one may be
malformed: both sides come to them or neither does.
-/

namespace DualScope

/-! ## The expressions -/

namespace Value

/-- The only expression of the body, or else all of them behind `begin`. -/
def IsBody (b : Value) (bodies : List Value) : Prop :=
  bodies = [b] ∨ 1 < bodies.length ∧ b.IsForm .begin bodies

/-- The same value, or false in another place of a text. -/
def SameOrFalse (v w : Value) : Prop :=
  v = w ∨ v.IsFalsity ∧ w.IsFalsity

/-- The second expression is the first one unfolded, and their values are related in this way. -/
inductive Unfolds : (Value → Value → Prop) → Value → Value → Prop
  /-- `(cond (t b ...) clause ...)` and `(if t (begin b ...) (cond clause ...))` -/
  | cond {x y clause t b c : Value} {bodies rest : List Value} :
    x.IsForm .cond (clause :: rest) → clause.list? = some (t :: bodies) → bodies ≠ [] →
    t.symbol? ≠ some "else" → y.IsForm .ifElse [t, b, c] → b.IsBody bodies → c.IsForm .cond rest →
    Unfolds (· = ·) x y
  /-- `(or e₁ e₂ ...)` and `(cond (e₁) (else (or e₂ ...)))` -/
  | or {x y clause final e₁ e₂ o : Value} {es : List Value} {span : Span} :
    x.IsForm .or (e₁ :: e₂ :: es) → e₁.symbol? ≠ some "else" → y.IsForm .cond [clause, final] →
    clause.list? = some [e₁] → final.list? = some [.symbol "else" span, o] →
    o.IsForm .or (e₂ :: es) → Unfolds (· = ·) x y
  /-- `(or e)` and `e` -/
  | orSingle {x e : Value} : x.IsForm .or [e] → Unfolds (· = ·) x e
  /-- `(and e₁ e₂ ...)` and `(if e₁ (and e₂ ...) #f)` -/
  | and {x y e₁ e₂ a f : Value} {es : List Value} :
    x.IsForm .and (e₁ :: e₂ :: es) → y.IsForm .ifElse [e₁, a, f] → a.IsForm .and (e₂ :: es) →
    f.IsFalsity → Unfolds SameOrFalse x y

end Value

/-! ## Bodies -/

namespace Form

/-- The body of a clause and an expression for it take the same steps. -/
theorem step_body {b body : Value} {bodies : List Value} (hbody : body.list? = some bodies)
    (hbodies : bodies ≠ []) (hb : b.IsBody bodies) (eval : Evaluation) (i : FrameId) :
    Eval.step eval (bodyExpression body) i = Eval.step eval b i := by
  rcases hb with rfl | ⟨hmany, hb⟩
  · rw [(bodyExpression_single hbody).1]
  · rcases bodyExpression_cases hbody hbodies with hone | hbegin
    · rw [hone] at hmany
      exact absurd hmany (Nat.lt_irrefl 1)
    · obtain ⟨e, es, rfl⟩ := List.exists_cons_of_ne_nil hbodies
      rw [step_begin hbegin, step_begin hb]

end Form

/-! ## What an evaluation does -/

namespace Eval

variable {last : Evaluation} {s : Settings} {level : Nat} {i : FrameId} {x y : Value}

section

variable (hs : s.strategy = .tailCall)

include hs

theorem runOn_tail (budget level : Nat) (e : Value) (i : FrameId) :
    runOn last s (budget + 1) level e i =
      step (nestedOn last s budget level) e i >>= Next.conclude (runOn last s budget level) := by
  rw [runOn_succ, onwardOn, hs]

theorem nestedOn_tail (hlevel : level < s.limit) (budget : Nat) (e : Value) (i : FrameId) :
    nestedOn last s (budget + 1) level e i =
      step (nestedOn last s budget (level + 1)) e i >>=
        Next.conclude (runOn last s budget (level + 1)) := by
  rw [nestedOn_of_lt hlevel, runOn_tail hs]

variable (hlevel : level < s.limit)

include hlevel

theorem nestedOn_ifElse {t b c : Value} (h : x.IsForm .ifElse [t, b, c]) (budget : Nat) :
    nestedOn last s (budget + 1) level x i =
      nestedOn last s budget (level + 1) t i >>= fun v =>
        runOn last s budget (level + 1) (if v.isTrue then b else c) i := by
  rw [nestedOn_tail hs hlevel, Form.step_ifElse h, bind_assoc]
  simp only [pure_bind]
  rfl

theorem nestedOn_cond {t b c clause : Value} {bodies rest : List Value}
    (h : x.IsForm .cond (clause :: rest)) (hclause : clause.list? = some (t :: bodies))
    (hbodies : bodies ≠ []) (ht : t.symbol? ≠ some "else") (hb : b.IsBody bodies)
    (hc : c.IsForm .cond rest) (budget : Nat) :
    nestedOn last s (budget + 2) level x i =
      nestedOn last s (budget + 1) (level + 1) t i >>= fun v =>
        if v.isTrue then runOn last s (budget + 1) (level + 1) b i
        else runOn last s (budget + 2) (level + 1) c i := by
  obtain ⟨body, hbody, hclauses⟩ := Form.clauses_cons hclause ht rest
  have hnil : body.isNil = false := by
    cases body with
    | nil span =>
        cases hbody
        exact absurd rfl hbodies
    | _ => rfl
  rw [nestedOn_tail hs hlevel, Form.step_cond h, hclauses, bind_assoc]
  refine congrArg _ (funext fun v => ?_)
  rw [hnil, if_neg Bool.false_ne_true]
  split
  · rw [pure_bind, Next.conclude, runOn_tail hs, runOn_tail hs, Form.step_body hbody hbodies hb]
  · rw [runOn_tail hs, Form.step_cond hc]

theorem nestedOn_or {e₁ e₂ o : Value} {es : List Value} (h : x.IsForm .or (e₁ :: e₂ :: es))
    (ho : o.IsForm .or (e₂ :: es)) (budget : Nat) :
    nestedOn last s (budget + 1) level x i =
      nestedOn last s budget (level + 1) e₁ i >>= fun v =>
        if v.isTrue then pure v else runOn last s (budget + 1) (level + 1) o i := by
  rw [nestedOn_tail hs hlevel, Form.step_or h (.boolean false .none),
    Form.disjunction.eq_3 _ _ _ _ _ (List.cons_ne_nil _ _), bind_assoc]
  refine congrArg _ (funext fun v => ?_)
  split
  · rfl
  · rw [runOn_tail hs, Form.step_or ho]

theorem nestedOn_or_cond {e₁ o clause final : Value} {span : Span}
    (h : x.IsForm .cond [clause, final]) (hclause : clause.list? = some [e₁])
    (he₁ : e₁.symbol? ≠ some "else") (hfinal : final.list? = some [.symbol "else" span, o])
    (budget : Nat) :
    nestedOn last s (budget + 1) level x i =
      nestedOn last s budget (level + 1) e₁ i >>= fun v =>
        if v.isTrue then pure v else runOn last s budget (level + 1) o i := by
  obtain ⟨body, hbody, hclauses⟩ := Form.clauses_cons hclause he₁ [final]
  obtain ⟨nspan, rfl⟩ := Value.list?_eq_nil hbody
  rw [nestedOn_tail hs hlevel, Form.step_cond h, hclauses, bind_assoc]
  refine congrArg _ (funext fun v => ?_)
  rw [Value.isNil, if_pos rfl, Form.clauses_else hfinal]
  split <;> rfl

theorem nestedOn_or_single {e : Value} (h : x.IsForm .or [e]) (budget : Nat) :
    nestedOn last s (budget + 1) level x i = nestedOn last s budget level e i := by
  rw [nestedOn_tail hs hlevel, Form.step_or h (.boolean false .none), nestedOn_of_lt hlevel]
  rfl

theorem nestedOn_and {e₁ e₂ a : Value} {es : List Value} (h : x.IsForm .and (e₁ :: e₂ :: es))
    (ha : a.IsForm .and (e₂ :: es)) (budget : Nat) :
    nestedOn last s (budget + 1) level x i =
      nestedOn last s budget (level + 1) e₁ i >>= fun v =>
        if v.isTrue then runOn last s (budget + 1) (level + 1) a i else pure v := by
  rw [nestedOn_tail hs hlevel, Form.step_and h (.boolean true .none), Form.conjunction, bind_assoc,
    bind_assoc]
  refine congrArg _ (funext fun v => ?_)
  split
  · rw [runOn_tail hs, Form.step_and ha v, bind_assoc]
  · rfl

end

theorem runOn_falsity {f : Value} (hf : f.IsFalsity) (budget : Nat) :
    runOn last s (budget + 1) level f i = pure f := by
  obtain ⟨span, rfl⟩ := hf
  rw [runOn_succ]
  rfl

/-! ## The unfolding -/

section

variable {P : Value → Value → Prop} {t : Value} {X Y : Evaluation → Nat → Value → Action Value}

/-- Where there is no room, both are refused. -/
theorem alike_of_covers (h : level < s.limit → Covers P s level x y i)
    (h' : level < s.limit → Covers (fun v w => P w v) s level y x i) (σ : State) :
    Alike P s level x y i σ := by
  by_cases hlevel : level < s.limit
  · exact (h hlevel).alike (h' hlevel) σ
  · have hle := Nat.le_of_not_lt hlevel
    exact (Covers.of_le hle x y i).alike (.of_le hle y x i) σ

/-- Both evaluate the same expression first and go on with the value. What the one makes of it the
other one makes of it, too, with one step more at most. -/
theorem alike_of_bind
    (hx : level < s.limit → ∀ last budget, nestedOn last s (budget + 2) level x i =
      nestedOn last s (budget + 1) (level + 1) t i >>= X last budget)
    (hy : level < s.limit → ∀ last budget, nestedOn last s (budget + 2) level y i =
      nestedOn last s (budget + 1) (level + 1) t i >>= Y last budget)
    (hXY : ∀ mark budget v, (X (interrupted mark) budget v).Parts (.atMark mark) P
      (Y (interrupted mark) (budget + 1) v))
    (hYX : ∀ mark budget v, (Y (interrupted mark) budget v).Parts (.atMark mark)
      (fun v w => P w v) (X (interrupted mark) (budget + 1) v)) (σ : State) :
    Alike P s level x y i σ :=
  alike_of_covers (fun hlevel => .of_bind (hx hlevel) (hy hlevel) hXY)
    (fun hlevel => .of_bind (hy hlevel) (hx hlevel) hYX) σ

end

/-! ## Each of the forms -/

section

variable (hs : s.strategy = .tailCall)

include hs

/-- Both leave the body, or a `cond` with the other clauses. -/
theorem cond_alike {clause t b c : Value} {bodies rest : List Value}
    (hx : x.IsForm .cond (clause :: rest)) (hclause : clause.list? = some (t :: bodies))
    (hbodies : bodies ≠ []) (ht : t.symbol? ≠ some "else") (hy : y.IsForm .ifElse [t, b, c])
    (hb : b.IsBody bodies) (hc : c.IsForm .cond rest) (σ : State) :
    Alike (· = ·) s level x y i σ := by
  refine alike_of_bind
    (fun hlevel last budget => nestedOn_cond hs hlevel hx hclause hbodies ht hb hc budget)
    (fun hlevel last budget => nestedOn_ifElse hs hlevel hy (budget + 1)) ?_ ?_ σ
  · intro mark budget v
    split
    · exact parts_runOn_self (fun _ => by rfl) mark (Nat.le_succ _) _ i
    · exact parts_runOn_self (fun _ => by rfl) mark (Nat.le_refl _) _ i
  · intro mark budget v
    split
    · exact parts_runOn_self (fun _ => by rfl) mark (Nat.le_succ _) _ i
    · exact parts_runOn_self (fun _ => by rfl) mark (Nat.le_add_right _ 2) _ i

/-- A true value is final in both. -/
theorem or_alike {clause final e₁ e₂ o : Value} {es : List Value} {span : Span}
    (hx : x.IsForm .or (e₁ :: e₂ :: es)) (he₁ : e₁.symbol? ≠ some "else")
    (hy : y.IsForm .cond [clause, final]) (hclause : clause.list? = some [e₁])
    (hfinal : final.list? = some [.symbol "else" span, o]) (ho : o.IsForm .or (e₂ :: es))
    (σ : State) : Alike (· = ·) s level x y i σ := by
  refine alike_of_bind (fun hlevel last budget => nestedOn_or hs hlevel hx ho (budget + 1))
    (fun hlevel last budget => nestedOn_or_cond hs hlevel hy hclause he₁ hfinal (budget + 1))
    ?_ ?_ σ
  · intro mark budget v
    split
    · exact .pure rfl
    · exact parts_runOn_self (fun _ => by rfl) mark (Nat.le_refl _) _ i
  · intro mark budget v
    split
    · exact .pure rfl
    · exact parts_runOn_self (fun _ => by rfl) mark (Nat.le_add_right _ 2) _ i

/-- The one gives back the false value that it came to, the other one the false of its text. -/
theorem and_alike {e₁ e₂ a f : Value} {es : List Value} (hx : x.IsForm .and (e₁ :: e₂ :: es))
    (hy : y.IsForm .ifElse [e₁, a, f]) (ha : a.IsForm .and (e₂ :: es)) (hf : f.IsFalsity)
    (σ : State) : Alike Value.SameOrFalse s level x y i σ := by
  refine alike_of_bind (fun hlevel last budget => nestedOn_and hs hlevel hx ha (budget + 1))
    (fun hlevel last budget => nestedOn_ifElse hs hlevel hy (budget + 1)) ?_ ?_ σ
  · intro mark budget v
    split
    · exact parts_runOn_self (fun _ => .inl rfl) mark (Nat.le_refl _) _ i
    · next hv =>
        rw [runOn_falsity hf]
        exact .pure (.inr ⟨Value.IsFalsity.of_isTrue hv, hf⟩)
  · intro mark budget v
    split
    · exact parts_runOn_self (fun _ => .inl rfl) mark (Nat.le_add_right _ 2) _ i
    · next hv =>
        rw [runOn_falsity hf]
        exact .pure (.inr ⟨Value.IsFalsity.of_isTrue hv, hf⟩)

end

/-- A form and what it unfolds to are evaluated alike under `tailCall`. -/
theorem unfolds_alike {P : Value → Value → Prop} (h : Value.Unfolds P x y) (limit level : Nat)
    (i : FrameId) (σ : State) : Alike P ⟨.tailCall, limit⟩ level x y i σ := by
  have hs : (Settings.mk .tailCall limit).strategy = .tailCall := rfl
  cases h with
  | cond hx hclause hbodies ht hy hb hc =>
      exact cond_alike hs hx hclause hbodies ht hy hb hc σ
  | or hx he₁ hy hclause hfinal ho => exact or_alike hs hx he₁ hy hclause hfinal ho σ
  | orSingle hx =>
      refine alike_of_covers (fun hlevel => ?_) (fun hlevel => ?_) σ
      · exact .of_succ (fun _ => by rfl) fun last => nestedOn_or_single hs hlevel hx
      · exact .to_succ (fun _ => by rfl) fun last => nestedOn_or_single hs hlevel hx
  | and hx hy ha hf => exact and_alike hs hx hy ha hf σ

section

/-- `(newline)`, with the procedure itself for its name. -/
def line : Value :=
  .ofList [.primitive .newline .none]

/-- `(#f (newline) (newline))` -/
def lines : Value :=
  .ofList [.boolean false .none, line, line]

/-- `(cond (#f (newline) (newline)) ())`, in which the last clause is malformed. -/
def condLines : Value :=
  Form.cond.on [lines, .nil .none]

/-- `(if #f (begin (newline) (newline)) (cond ()))` -/
def ifLines : Value :=
  Form.ifElse.on [.boolean false .none, Form.begin.on [line, line], Form.cond.on [.nil .none]]

/-- `(or #f (newline))` -/
def orLine : Value :=
  Form.or.on [.boolean false .none, line]

/-- `(cond (#f) (else (or (newline))))` -/
def condLine : Value :=
  Form.cond.on [.ofList [.boolean false .none], .ofList [.symbol "else" .none, Form.or.on [line]]]

/-- `(and #f (newline))` -/
def andLine : Value :=
  Form.and.on [.boolean false .none, line]

/-- `(if #f (and (newline)) #f)`, with the last part somewhere else. -/
def ifLine : Value :=
  Form.ifElse.on [.boolean false .none, Form.and.on [line], .boolean false ⟨1, 3⟩]

theorem unfolds_alike_lines :
    Alike (· = ·) ⟨.tailCall, 3⟩ 0 condLines ifLines 0 sampleStart ∧
      Alike (· = ·) ⟨.tailCall, 3⟩ 0 orLine condLine 0 sampleStart ∧
      Alike (· = ·) ⟨.tailCall, 3⟩ 0 (Form.or.on [line]) line 0 sampleStart ∧
      Alike Value.SameOrFalse ⟨.tailCall, 3⟩ 0 andLine ifLine 0 sampleStart := by
  refine ⟨unfolds_alike ?_ 3 0 0 sampleStart, unfolds_alike ?_ 3 0 0 sampleStart,
    unfolds_alike ?_ 3 0 0 sampleStart, unfolds_alike ?_ 3 0 0 sampleStart⟩
  · exact .cond (Form.isForm_on _ _) (Value.list?_ofList _) (List.cons_ne_nil _ _)
      (by decide) (Form.isForm_on _ _) (.inr ⟨by decide, Form.isForm_on _ _⟩) (Form.isForm_on _ _)
  · exact .or (Form.isForm_on _ _) (by decide) (Form.isForm_on _ _) (Value.list?_ofList _)
      (Value.list?_ofList _) (Form.isForm_on _ _)
  · exact .orSingle (Form.isForm_on _ _)
  · exact .and (Form.isForm_on _ _) (Form.isForm_on _ _) (Form.isForm_on _ _) ⟨_, rfl⟩

end

end Eval

end DualScope
