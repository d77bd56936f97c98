import DualScope.Proofs.Shorthand

/-!
# Malformed forms

What a form asks of the shape of its operands it asks first. A form that is malformed therefore
fails by the first step, with nothing evaluated and nothing bound, whatever its operands are. Most
of them count the operands and stop there, a `define` counts them again where it finds a symbol,
and a `let` looks at the list of its bindings before it makes a frame.

The definition of a procedure is the one that goes a step further. It makes the closure and then
finds that there is no name to bind it to. All that is left of this is that an identity has been
given out, and this no program can see.

That nothing is evaluated is said here by leaving open how anything would be.
-/

namespace DualScope

/-! ## What is malformed -/

/-- The value is a proper list of symbols that differ from one another. -/
def Value.AreFormals (v : Value) : Prop :=
  ∃ names, v.Symbols names ∧ names.Nodup

/-- The form can have so many operands. -/
def Form.Accepts : Form → Nat → Prop
  | .quote, n => n = 1
  | .ifElse, n => n = 2 ∨ n = 3
  | .begin, n => 1 ≤ n
  | .lambda, n | .mu, n | .define, n | .letIn, n => 2 ≤ n
  | .and, _ | .or, _ | .cond, _ => True

namespace Value

/-- An expression that can be told not to be one by its shape, without its operands being
evaluated. -/
inductive Malformed : Value → Prop
  /-- A chain of pairs that ends in something other than the empty list. -/
  | improper {id : Identity} {head rest : Value} {span : Span} :
    rest.isProper = false → Malformed (.pair id head rest span)
  | count {x : Value} {form : Form} {operands : List Value} :
    x.IsForm form operands → ¬ form.Accepts operands.length → Malformed x
  /-- `(lambda formals b ...)`, and the same with `mu`. -/
  | formals {x formals : Value} {form : Form} {bodies : List Value} :
    form = .lambda ∨ form = .mu → x.IsForm form (formals :: bodies) → ¬ formals.AreFormals →
      Malformed x
  /-- `(define name)` or `(define name e e' ...)` -/
  | expressions {x : Value} {name : String} {span : Span} {es : List Value} :
    x.IsForm .define (.symbol name span :: es) → es.length ≠ 1 → Malformed x
  | target {x target : Value} {es : List Value} :
    x.IsForm .define (target :: es) → target.kind ≠ .symbol → target.kind ≠ .pair → Malformed x
  /-- `(define (name . formals) b ...)`, where the name is none. -/
  | name {x name formals : Value} {id : Identity} {span : Span} {bodies : List Value} :
    x.IsForm .define (.pair id name formals span :: bodies) → name.kind ≠ .symbol → Malformed x
  | shorthand {x name formals : Value} {id : Identity} {span : Span} {bodies : List Value} :
    x.IsForm .define (.pair id name formals span :: bodies) → ¬ formals.AreFormals → Malformed x
  | bindings {x bindings : Value} {bodies : List Value} :
    x.IsForm .letIn (bindings :: bodies) → bindings.isProper = false → Malformed x

end Value

/-! ## Checks that fail -/

namespace Form

variable {operands formals : Value} {vs bodies : List Value}

/-- A number of operands that is out of bounds is a fault. -/
theorem checkLength_error (least : Nat) (most : Option Nat) (h : operands.list? = some vs)
    (hcount : ¬ (least ≤ vs.length ∧ ∀ bound, most = some bound → vs.length ≤ bound)) :
    ∃ fault, checkLength operands least most = .error (.badForm fault operands.span) := by
  rw [checkLength, Value.length?_of_list? h]
  dsimp only
  split
  · exact ⟨_, rfl⟩
  · next hleast =>
      cases most with
      | none => exact absurd ⟨Nat.not_lt.mp hleast, fun _ h => by cases h⟩ hcount
      | some bound =>
          dsimp only
          split
          · exact ⟨_, rfl⟩
          · next hmost =>
              refine absurd ⟨Nat.not_lt.mp hleast, fun b hb => ?_⟩ hcount
              cases hb
              exact Nat.not_lt.mp hmost

theorem isTooDeep_of_checkFormalsAfter {seen : List String} {e : EvalError}
    (h : checkFormalsAfter seen formals = .error e) : e.isTooDeep = false := by
  fun_induction checkFormalsAfter seen formals with
  | case1 => cases h
  | case2 => cases h; rfl
  | case3 seen id name nspan rest span hname ih => exact ih h
  | case4 => cases h; rfl
  | case5 => cases h; rfl

theorem checkFormals_error (h : ¬ formals.AreFormals) :
    ∃ e, checkFormals formals = .error e ∧ e.isTooDeep = false := by
  cases hcheck : checkFormals formals with
  | ok _ => exact absurd (symbols_of_checkFormals hcheck) h
  | error e => exact ⟨e, rfl, isTooDeep_of_checkFormalsAfter hcheck⟩

/-- The forms that ask for a number of operands do so before anything else. -/
theorem perform_miscounted {form : Form} (h : operands.list? = some vs)
    (hcount : ¬ form.Accepts vs.length) :
    ∃ fault, ∀ eval i span,
      form.perform eval i operands span = .fail (.badForm fault operands.span) := by
  have hcheck (least : Nat) (most : Option Nat)
      (hbounds : least ≤ vs.length ∧ (∀ bound, most = some bound → vs.length ≤ bound) →
        form.Accepts vs.length) :
      ∃ fault, checkLength operands least most = .error (.badForm fault operands.span) :=
    checkLength_error least most h (mt hbounds hcount)
  cases form with
  | and => exact absurd trivial hcount
  | or => exact absurd trivial hcount
  | cond => exact absurd trivial hcount
  | quote =>
      obtain ⟨fault, hfault⟩ := hcheck 1 (some 1) fun h => Nat.le_antisymm (h.2 1 rfl) h.1
      exact ⟨fault, fun eval i span => by rw [perform, hfault]; rfl⟩
  | ifElse =>
      obtain ⟨fault, hfault⟩ := hcheck 2 (some 3) fun h => by
        have hmost := h.2 3 rfl
        simp only [Accepts]
        omega
      exact ⟨fault, fun eval i span => by rw [perform, hfault]; rfl⟩
  | begin =>
      obtain ⟨fault, hfault⟩ := hcheck 1 none fun h => h.1
      exact ⟨fault, fun eval i span => by rw [perform, hfault]; rfl⟩
  | lambda =>
      obtain ⟨fault, hfault⟩ := hcheck 2 none fun h => h.1
      exact ⟨fault, fun eval i span => by rw [perform, makeLambda, procedureParts, hfault]; rfl⟩
  | mu =>
      obtain ⟨fault, hfault⟩ := hcheck 2 none fun h => h.1
      exact ⟨fault, fun eval i span => by rw [perform, makeMu, procedureParts, hfault]; rfl⟩
  | define =>
      obtain ⟨fault, hfault⟩ := hcheck 2 none fun h => h.1
      exact ⟨fault, fun eval i span => by rw [perform, definition, hfault]; rfl⟩
  | letIn =>
      obtain ⟨fault, hfault⟩ := hcheck 2 none fun h => h.1
      exact ⟨fault, fun eval i span => by rw [perform, hfault]; rfl⟩

end Form

/-! ## Steps that are refused -/

namespace Value

/-- However expressions are evaluated, a step on this one fails, and behind it the state is what it
was but for the number of identities given out. -/
def Refused (x : Value) (i : FrameId) (σ : State) : Prop :=
  ∃ e made, e.isTooDeep = false ∧ ∀ eval, Eval.step eval x i σ = .error e { σ with made := made }

variable {x formals : Value} {form : Form} {operands bodies : List Value} {i : FrameId} {σ : State}

theorem refused_of_fail {e : EvalError} (he : e.isTooDeep = false)
    (h : ∀ eval, Eval.step eval x i = .fail e) : x.Refused i σ :=
  ⟨e, σ.made, he, fun eval => congrFun (h eval) σ⟩

theorem refused_of_count (hx : x.IsForm form operands) (hcount : ¬ form.Accepts operands.length) :
    x.Refused i σ := by
  obtain ⟨rest, span, hrest, hstep⟩ := Form.step_eq_perform hx
  obtain ⟨fault, hperform⟩ := Form.perform_miscounted hrest hcount
  exact refused_of_fail (by rfl) fun eval => (hstep eval i).trans (hperform eval i span)

/-- Where a form needs a second operand, it is enough to look at those that have one. -/
theorem refused_of_second {v : Value} (hx : x.IsForm form (v :: bodies)) (hform : ¬ form.Accepts 1)
    (h : bodies ≠ [] → x.Refused i σ) : x.Refused i σ := by
  by_cases hbodies : bodies = []
  · subst hbodies
    exact refused_of_count hx hform
  · exact h hbodies

theorem exists_operands {v : Value} (hx : x.IsForm form (v :: bodies)) :
    ∃ id rest ospan span, rest.list? = some bodies ∧
      ∀ eval i, Eval.step eval x i = form.perform eval i (.pair id v rest ospan) span := by
  obtain ⟨operands, span, hoperands, hstep⟩ := Form.step_eq_perform hx
  obtain ⟨id, rest, ospan, rfl, hrest⟩ := list?_eq_cons hoperands
  exact ⟨id, rest, ospan, span, hrest, hstep⟩

theorem refused_of_formals (hform : form = .lambda ∨ form = .mu)
    (hx : x.IsForm form (formals :: bodies)) (hformals : ¬ formals.AreFormals) :
    x.Refused i σ := by
  obtain ⟨e, hcheck, he⟩ := Form.checkFormals_error hformals
  refine refused_of_second hx (by rcases hform with rfl | rfl <;> exact Nat.not_succ_le_self 1) ?_
  intro hne
  obtain ⟨id, rest, ospan, span, hrest, hstep⟩ := exists_operands hx
  have hparts := Form.procedureParts_eq hrest hne formals id ospan
  rw [hcheck] at hparts
  refine refused_of_fail he fun eval => ?_
  rcases hform with rfl | rfl
  · rw [hstep, Form.perform, Form.makeLambda, hparts]
    rfl
  · rw [hstep, Form.perform, Form.makeMu, hparts]
    rfl

/-- Behind a symbol there is one expression to bind it to. -/
theorem refused_of_expressions {name : String} {nspan : Span} {es : List Value}
    (hx : x.IsForm .define (.symbol name nspan :: es)) (hes : es.length ≠ 1) : x.Refused i σ := by
  refine refused_of_second hx (Nat.not_succ_le_self 1) fun hne => ?_
  obtain ⟨id, rest, ospan, span, hrest, hstep⟩ := exists_operands hx
  obtain ⟨fault, hfault⟩ := Form.checkLength_error 2 (some 2)
    (Form.list?_before_body hrest (.symbol name nspan) id ospan)
    fun h => hes (Nat.succ.inj (Nat.le_antisymm (h.2 2 rfl) h.1))
  refine refused_of_fail (e := .badForm fault ospan) (by rfl) fun eval => ?_
  rw [hstep, Form.perform, Form.definition, Form.checkLength_before_body hrest hne]
  simp only [Form.uncons, Action.ofExcept_ok, pure_bind, hfault]
  rfl

theorem refused_of_target {target : Value} (hx : x.IsForm .define (target :: bodies))
    (hsymbol : target.kind ≠ .symbol) (hpair : target.kind ≠ .pair) : x.Refused i σ := by
  refine refused_of_second hx (Nat.not_succ_le_self 1) fun hne => ?_
  obtain ⟨id, rest, ospan, span, hrest, hstep⟩ := exists_operands hx
  refine refused_of_fail (e := .badDefinition target) (by rfl) fun eval => ?_
  rw [hstep, Form.perform, Form.definition, Form.checkLength_before_body hrest hne]
  simp only [Form.uncons, Action.ofExcept_ok, pure_bind]
  cases target with
  | symbol name span => exact absurd rfl hsymbol
  | pair id car cdr span => exact absurd rfl hpair
  | _ => rfl

theorem refused_of_bindings {bindings : Value} (hx : x.IsForm .letIn (bindings :: bodies))
    (hbindings : bindings.isProper = false) : x.Refused i σ := by
  refine refused_of_second hx (Nat.not_succ_le_self 1) fun hne => ?_
  obtain ⟨id, rest, ospan, span, hrest, hstep⟩ := exists_operands hx
  refine refused_of_fail (e := .badForm (.badBindings bindings) bindings.span) (by rfl)
    fun eval => ?_
  rw [hstep, Form.perform, Form.checkLength_before_body hrest hne]
  simp only [Form.uncons, Action.ofExcept_ok, pure_bind, hbindings, Bool.not_false, if_true]

/-- A definition of a procedure fails at its formals, or else at its name. -/
theorem refused_of_shorthand {name : Value} {id : Identity} {span : Span}
    (hx : x.IsForm .define (.pair id name formals span :: bodies))
    (h : name.kind ≠ .symbol ∨ ¬ formals.AreFormals) : x.Refused i σ := by
  refine refused_of_second hx (Nat.not_succ_le_self 1) fun hne => ?_
  obtain ⟨rest, hrest, hshort⟩ := hx.isShorthand
  have hstep := Form.step_shorthand hrest hne hshort
  cases hcheck : Form.checkFormals formals with
  | error e =>
      refine refused_of_fail (Form.isTooDeep_of_checkFormalsAfter hcheck) fun eval => ?_
      rw [hstep, hcheck]
      rfl
  | ok _ =>
      have hname := h.resolve_right fun hformals => hformals (Form.symbols_of_checkFormals hcheck)
      have hdefine (v : Value) : Action.define i name v = .fail (.badTarget name) := by
        cases name with
        | symbol name span => exact absurd rfl hname
        | _ => rfl
      refine ⟨.badTarget name, σ.made + 1, rfl, fun eval => ?_⟩
      rw [hstep, hcheck]
      simp only [hdefine]
      rfl

theorem Malformed.refused (h : x.Malformed) (i : FrameId) (σ : State) : x.Refused i σ := by
  cases h with
  | @improper id head rest span hproper =>
      refine refused_of_fail (e := .malformed (.pair id head rest span)) (by rfl) fun eval => ?_
      simp only [Eval.step, hproper, Bool.not_false, if_true]
  | count hx hcount => exact refused_of_count hx hcount
  | formals hform hx hformals => exact refused_of_formals hform hx hformals
  | expressions hx hes => exact refused_of_expressions hx hes
  | target hx hsymbol hpair => exact refused_of_target hx hsymbol hpair
  | name hx hname => exact refused_of_shorthand hx (.inl hname)
  | shorthand hx hformals => exact refused_of_shorthand hx (.inr hformals)
  | bindings hx hbindings => exact refused_of_bindings hx hbindings

end Value

namespace Eval

/-- Where the limit lets it be evaluated at all, a malformed expression fails, and not for the
limit. None of its parts is evaluated: the step that fails is the same however that would be done.
It leaves the frames, the texts taken up, the files and all that went out as they were. -/
theorem malformed_has_no_effect {x : Value} (h : x.Malformed) (i : FrameId) (σ : State) :
    ∃ e made, e.isTooDeep = false ∧
      (∀ eval, step eval x i σ = .error e { σ with made := made }) ∧
      ∀ s level, level < s.limit →
        ∀ r, Ends s level x i σ r ↔ r = .error e { σ with made := made } := by
  obtain ⟨e, made, he, hstep⟩ := h.refused i σ
  refine ⟨e, made, he, hstep, fun s level hlevel r => ?_⟩
  exact (ends_of_step_error hlevel (hstep (nested s 0 (level + 1)))).iff_eq

section

/-- `(newline)` -/
def printing : Value :=
  .ofList [.symbol "newline" .none]

/-- `(define ((newline) a) (newline))` -/
def unnamed : Value :=
  .ofList [.symbol "define" .none, .ofList [printing, .symbol "a" .none], printing]

theorem unnamed_malformed : unnamed.Malformed :=
  .name ⟨.none, rfl⟩ nofun

/-- Where a call stands in the place of the name, it is not made. The closure is all that was. -/
theorem malformed_has_no_effect_unnamed :
    let σ := Session.start fun _ => .error .notFound
    unnamed.Malformed ∧ ∀ r, Ends ⟨.tailCall, 1⟩ 0 unnamed 0 σ r ↔
      r = .error (.badTarget printing) { σ with made := 1 } := by
  intro σ
  obtain ⟨e, made, -, hstep, hends⟩ := malformed_has_no_effect unnamed_malformed 0 σ
  have hfails : step (fun _ _ => .cutShort) unnamed 0 σ =
      .error (.badTarget printing) { σ with made := 1 } := rfl
  rw [hstep] at hfails
  cases hfails
  exact ⟨unnamed_malformed, hends ⟨.tailCall, 1⟩ 0 Nat.zero_lt_one⟩

end

end Eval

end DualScope
