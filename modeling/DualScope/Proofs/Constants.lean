import DualScope.Proofs.CallFrames
import Mathlib.Data.List.Forall2

/-!
# Forms of constants

A constant is its own value, and its evaluation takes a single step and changes nothing. So of
a form whose operands are constants up to one, all there is to say is where this one is
evaluated, and in which frame. The same holds of the bindings of a `let` and of the arguments
of a call: they are bound as they are written. A `lambda` or a `mu` takes a single step as
well, which only gives out an identity.

Here forms and calls are told by their shape alone. Where their parts stand in a text, and
which identities their pairs have, makes no difference to any of this.
-/

namespace DualScope

/-! ## Constants -/

namespace Value

/-- Neither a name nor a pair, and therefore its own value. -/
structure IsConstant (v : Value) : Prop where
  symbol : v.symbol? = none
  car : v.car? = none

/-- A constant other than false. -/
structure IsTruth (v : Value) : Prop extends IsConstant v where
  isTrue : v.isTrue = true

def IsFalsity (v : Value) : Prop :=
  ∃ span, v = .boolean false span

theorem IsFalsity.isConstant {v : Value} (h : v.IsFalsity) : v.IsConstant := by
  obtain ⟨span, rfl⟩ := h
  exact ⟨rfl, rfl⟩

theorem IsFalsity.isTrue {v : Value} (h : v.IsFalsity) : v.isTrue = false := by
  obtain ⟨span, rfl⟩ := h
  rfl

/-! ## Lists -/

theorem list?_pair (id : Identity) (car cdr : Value) (span : Span) :
    (pair id car cdr span).list? = cdr.list?.map (car :: ·) := by
  have hproper : (pair id car cdr span).isProper = cdr.isProper := rfl
  rw [list?, list?, hproper, elements_pair]
  cases cdr.isProper <;> rfl

theorem list?_eq_cons {v first : Value} {others : List Value}
    (h : v.list? = some (first :: others)) :
    ∃ id rest span, v = .pair id first rest span ∧ rest.list? = some others := by
  cases v with
  | pair id car cdr span =>
      rw [list?_pair] at h
      obtain ⟨vs, hvs, heq⟩ := Option.map_eq_some_iff.mp h
      cases heq
      exact ⟨id, cdr, span, rfl, hvs⟩
  | _ => cases h

theorem list?_eq_nil {v : Value} (h : v.list? = some []) : ∃ span, v = .nil span := by
  cases v with
  | nil span => exact ⟨span, rfl⟩
  | pair id car cdr span =>
      rw [list?_pair] at h
      cases hcdr : cdr.list? <;> rw [hcdr] at h <;> cases h
  | _ => cases h

theorem elements_of_list? {v : Value} {vs : List Value} (h : v.list? = some vs) :
    v.elements = vs := by
  rw [list?] at h
  split at h
  · exact Option.some.inj h
  · cases h

theorem isProper_of_list? {v : Value} {vs : List Value} (h : v.list? = some vs) :
    v.isProper = true := by
  rw [list?] at h
  split at h
  · assumption
  · cases h

theorem list?_ofList (vs : List Value) : (ofList vs).list? = some vs := by
  rw [list?, if_pos (isProper_ofList vs), elements_ofList]

theorem length?_of_list? {v : Value} {vs : List Value} (h : v.list? = some vs) :
    v.length? = some vs.length := by
  rw [length?, h]
  rfl

/-- The form with these operands, wherever it stands in a text. -/
def IsForm (v : Value) (form : Form) (operands : List Value) : Prop :=
  ∃ span, v.list? = some (.symbol form.name span :: operands)

end Value

theorem Value.IsForm.eq_pair {v : Value} {form : Form} {operands : List Value}
    (h : v.IsForm form operands) : ∃ id nspan rest span,
      v = .pair id (.symbol form.name nspan) rest span ∧ rest.list? = some operands := by
  obtain ⟨nspan, h⟩ := h
  obtain ⟨id, rest, span, rfl, hrest⟩ := Value.list?_eq_cons h
  exact ⟨id, nspan, rest, span, rfl, hrest⟩

theorem Value.IsForm.symbol? {v : Value} {form : Form} {operands : List Value}
    (h : v.IsForm form operands) : v.symbol? = none := by
  obtain ⟨id, nspan, rest, span, rfl, -⟩ := h.eq_pair
  rfl

/-- The evaluation takes a constant for its own value. -/
def Evaluation.KeepsConstants (eval : Evaluation) : Prop :=
  ∀ v i, v.IsConstant → eval v i = pure v

theorem Action.ofExcept_ok (a : α) : Action.ofExcept (.ok a) = (Pure.pure a : Action α) := rfl

namespace Form

variable {eval : Evaluation} {i : FrameId} {e hole : Value} {vs : List Value}

theorem ofName?_name (form : Form) : ofName? form.name = some form := by
  cases form <;> rfl

/-- A step on a form is what the form does. -/
theorem step_form {rest : Value} (hrest : rest.list? = some vs) (id : Identity) (form : Form)
    (nspan span : Span) (eval : Evaluation) (i : FrameId) :
    Eval.step eval (.pair id (.symbol form.name nspan) rest span) i =
      form.perform eval i rest span := by
  have hform : (Value.symbol form.name nspan).symbol?.bind ofName? = some form := ofName?_name form
  simp only [Eval.step, Value.isProper_of_list? hrest, hform]
  rfl

theorem step_eq_perform {form : Form} (h : e.IsForm form vs) :
    ∃ rest span, rest.list? = some vs ∧
      ∀ eval i, Eval.step eval e i = form.perform eval i rest span := by
  obtain ⟨id, nspan, rest, span, rfl, hrest⟩ := h.eq_pair
  exact ⟨rest, span, hrest, step_form hrest id form nspan span⟩

theorem checkLength_of_list? {operands : Value} {least : Nat} {most : Option Nat}
    (h : operands.list? = some vs) (hleast : least ≤ vs.length)
    (hmost : ∀ bound, most = some bound → vs.length ≤ bound) :
    checkLength operands least most = .ok () := by
  rw [checkLength, Value.length?_of_list? h]
  simp only [if_neg (Nat.not_lt.mpr hleast)]
  cases most with
  | none => rfl
  | some bound => exact if_neg (Nat.not_lt.mpr (hmost bound rfl))

/-! ## Sequences around a hole -/

theorem conjunction_truths (heval : eval.KeepsConstants) (hvs : ∀ v ∈ vs, v.IsTruth)
    (last : Value) : conjunction eval i last (vs ++ [hole]) = eval hole i := by
  induction vs generalizing last with
  | nil =>
      rw [List.nil_append, conjunction]
      simp only [conjunction, ite_self, bind_pure]
  | cons v vs ih =>
      obtain ⟨hv, hvs⟩ := List.forall_mem_cons.mp hvs
      rw [List.cons_append, conjunction, heval v i hv.toIsConstant, pure_bind, if_pos hv.isTrue,
        ih hvs]

theorem sequence_constants (heval : eval.KeepsConstants) (hvs : ∀ v ∈ vs, v.IsConstant)
    (last : Value) : sequence eval i last (vs ++ [hole]) = eval hole i := by
  induction vs generalizing last with
  | nil => simp only [List.nil_append, sequence, bind_pure]
  | cons v vs ih =>
      obtain ⟨hv, hvs⟩ := List.forall_mem_cons.mp hvs
      rw [List.cons_append, sequence, heval v i hv, pure_bind, ih hvs]

theorem disjunction_falsities (heval : eval.KeepsConstants) (hvs : ∀ v ∈ vs, v.IsFalsity)
    (none : Value) : disjunction eval i none (vs ++ [hole]) = pure (.eval hole i) := by
  induction vs with
  | nil => rfl
  | cons v vs ih =>
      obtain ⟨hv, hvs⟩ := List.forall_mem_cons.mp hvs
      have hmore : vs ++ [hole] ≠ [] := by simp
      rw [List.cons_append, disjunction.eq_3 _ _ _ _ _ hmore, heval v i hv.isConstant, pure_bind,
        hv.isTrue, if_neg Bool.false_ne_true, ih hvs]

theorem body_constants (heval : eval.KeepsConstants) (hvs : ∀ v ∈ vs, v.IsConstant)
    (span : Span) : body eval i span (vs ++ [hole]) = pure (.eval hole i) := by
  induction vs with
  | nil => rfl
  | cons v vs ih =>
      obtain ⟨hv, hvs⟩ := List.forall_mem_cons.mp hvs
      have hmore : vs ++ [hole] ≠ [] := by simp
      rw [List.cons_append, body.eq_3 _ _ _ _ _ hmore, heval v i hv, pure_bind, ih hvs]

/-- What a clause does whose test is an expression. -/
theorem clauses_cons {clause t : Value} (hclause : clause.list? = some (t :: vs))
    (ht : t.symbol? ≠ some "else") (rest : List Value) :
    ∃ body, body.list? = some vs ∧ ∀ eval i, clauses eval i (clause :: rest) =
      eval t i >>= fun v =>
        if v.isTrue then
          if body.isNil then pure (.done v) else pure (.eval (bodyExpression body) i)
        else clauses eval i rest := by
  have hlength : checkLength clause 1 none = .ok () :=
    checkLength_of_list? hclause (by simp) fun _ h => by cases h
  obtain ⟨id, body, span, rfl, hbody⟩ := Value.list?_eq_cons hclause
  refine ⟨body, hbody, fun eval i => ?_⟩
  simp only [clauses, hlength, uncons, Action.ofExcept_ok, pure_bind, test, if_neg ht]

/-- What a clause comes to whose test is a constant. -/
theorem clauses_constant (heval : eval.KeepsConstants) (i : FrameId) (rest : List Value)
    {clause v : Value} (hv : v.IsConstant) (hclause : clause.list? = some (v :: vs)) :
    ∃ body, body.list? = some vs ∧ clauses eval i (clause :: rest) =
      if v.isTrue then
        if body.isNil then pure (.done v) else pure (.eval (bodyExpression body) i)
      else clauses eval i rest := by
  obtain ⟨body, hbody, heq⟩ := clauses_cons hclause (by rw [hv.symbol]; nofun) rest
  exact ⟨body, hbody, by rw [heq, heval v i hv, pure_bind]⟩

/-- Clauses whose tests are false are passed over. -/
theorem clauses_falsities (heval : eval.KeepsConstants) {skipped : List Value} (rest : List Value)
    (hskipped : ∀ clause ∈ skipped, ∃ f es, f.IsFalsity ∧ clause.list? = some (f :: es)) :
    clauses eval i (skipped ++ rest) = clauses eval i rest := by
  induction skipped with
  | nil => rfl
  | cons clause skipped ih =>
      obtain ⟨⟨f, es, hf, hclause⟩, hskipped⟩ := List.forall_mem_cons.mp hskipped
      obtain ⟨body, _, heq⟩ :=
        clauses_constant heval i (skipped ++ rest) hf.isConstant hclause
      rw [List.cons_append, heq, hf.isTrue, if_neg Bool.false_ne_true, ih hskipped]

/-- A body of one expression is that expression. -/
theorem bodyExpression_single {body : Value} (h : body.list? = some [e]) :
    bodyExpression body = e ∧ body.isNil = false := by
  obtain ⟨id, rest, span, rfl, hrest⟩ := Value.list?_eq_cons h
  cases rest with
  | nil span' => exact ⟨rfl, rfl⟩
  | pair id' car cdr span' =>
      rw [Value.list?_pair] at hrest
      cases hcdr : cdr.list? <;> rw [hcdr] at hrest <;> cases hrest
  | _ => cases hrest

theorem clauses_truth (heval : eval.KeepsConstants) {clause c : Value} {rest : List Value}
    (hc : c.IsTruth) (hclause : clause.list? = some [c, hole]) :
    clauses eval i (clause :: rest) = pure (.eval hole i) := by
  obtain ⟨body, hbody, heq⟩ := clauses_constant heval i rest hc.toIsConstant hclause
  obtain ⟨hhole, hnil⟩ := bodyExpression_single hbody
  rw [heq, hc.isTrue, if_pos rfl, hnil, if_neg Bool.false_ne_true, hhole]

theorem clauses_else {clause : Value} {span : Span}
    (hclause : clause.list? = some [.symbol "else" span, hole]) :
    clauses eval i [clause] = pure (.eval hole i) := by
  have hlength : checkLength clause 1 none = .ok () :=
    checkLength_of_list? hclause (by simp) fun _ h => by cases h
  obtain ⟨id, body, cspan, rfl, hbody⟩ := Value.list?_eq_cons hclause
  obtain ⟨hhole, hnil⟩ := bodyExpression_single hbody
  simp only [clauses, hlength, uncons, Action.ofExcept_ok, pure_bind, test, Value.symbol?, hnil,
    hhole]
  rfl

/-! ## Bindings -/

theorem checkFormalsAfter_symbols {seen : List String} {formals : Value} {names : List String}
    (h : formals.Symbols names) (hnodup : names.Nodup) (hfresh : ∀ name ∈ names, name ∉ seen) :
    checkFormalsAfter seen formals = .ok () := by
  induction h generalizing seen with
  | nil span => rfl
  | cons id name nspan span _ ih =>
      obtain ⟨hname, hnodup⟩ := List.nodup_cons.mp hnodup
      obtain ⟨hnew, hfresh⟩ := List.forall_mem_cons.mp hfresh
      rw [checkFormalsAfter, if_neg hnew]
      refine ih hnodup fun n hn hseen => ?_
      rcases List.mem_cons.mp hseen with rfl | hseen
      · exact hname hn
      · exact hfresh n hn hseen

end Form

theorem Eval.operands_pure {eval : Evaluation} {i : FrameId} {es vs : List Value}
    (h : List.Forall₂ (fun e v => eval e i = pure v) es vs) (known : List Value) :
    Eval.operands eval i known es = pure (known.reverse ++ vs) := by
  induction h generalizing known with
  | nil => rw [Eval.operands, List.append_nil]
  | cons hv _ ih =>
      rw [Eval.operands, hv, pure_bind, ih, List.reverse_cons, List.append_assoc]
      rfl

theorem Eval.operands_constants {eval : Evaluation} (heval : eval.KeepsConstants) {i : FrameId}
    {vs : List Value} (hvs : ∀ v ∈ vs, v.IsConstant) (known : List Value) :
    Eval.operands eval i known vs = pure (known.reverse ++ vs) :=
  operands_pure (List.forall₂_same.mpr fun v hv => heval v i (hvs v hv)) known

/-! ## The bindings of a `let` -/

theorem Eval.operands_known (eval : Evaluation) (i : FrameId) (known es : List Value) :
    operands eval i known es = operands eval i [] es >>= fun ws => pure (known.reverse ++ ws) := by
  induction es generalizing known with
  | nil => rw [operands, operands, pure_bind, List.reverse_nil, List.append_nil]
  | cons e es ih =>
      rw [operands, operands, bind_assoc]
      refine congrArg _ (funext fun v => ?_)
      rw [ih (v :: known), ih [v], bind_assoc]
      simp only [pure_bind, List.reverse_cons, List.append_assoc, List.reverse_nil, List.nil_append]

/-- A `let` evaluates its values like the operands of a call. -/
theorem Form.letBindings_eq (eval : Evaluation) (i : FrameId) {bindings : List (String × Value)}
    {vs : List Value} (hvs : List.Forall₂ (fun v (b : String × Value) =>
      ∃ span, v.list? = some [.symbol b.1 span, b.2]) vs bindings)
    {made : List (String × Value)}
    (hnodup : (made.map Prod.fst ++ bindings.map Prod.fst).Nodup) :
    letBindings eval i made vs =
      Eval.operands eval i [] (bindings.map Prod.snd) >>= fun ws =>
        pure (made ++ (bindings.map Prod.fst).zip ws) := by
  induction hvs generalizing made with
  | nil =>
      rw [letBindings, List.map_nil, List.map_nil, Eval.operands, pure_bind, List.zip_nil_left,
        List.append_nil]
  | @cons v b vs bindings hv _ ih =>
      obtain ⟨span, hv⟩ := hv
      have hfresh : b.1 ∉ made.map Prod.fst := fun hn =>
        (List.nodup_append.mp hnodup).2.2 b.1 hn b.1 List.mem_cons_self rfl
      have hlength : checkLength v 1 (some 2) = .ok () :=
        checkLength_of_list? hv (by simp) fun _ h => by cases h; exact Nat.le_refl _
      obtain ⟨id, rest, vspan, rfl, hrest⟩ := Value.list?_eq_cons hv
      obtain ⟨id', rest', rspan, rfl, _⟩ := Value.list?_eq_cons hrest
      have hnodup' : ∀ w : Value,
          ((made ++ [(b.1, w)]).map Prod.fst ++ bindings.map Prod.fst).Nodup := by
        intro w
        rwa [List.map_append, List.append_assoc]
      simp only [letBindings, hlength, uncons, Action.ofExcept_ok, pure_bind, Value.car?,
        evalOption, Value.symbol?, List.map_cons, Eval.operands]
      rw [bind_assoc]
      refine congrArg _ (funext fun w => ?_)
      rw [Frame.insert_of_fresh hfresh, ih (hnodup' w), Eval.operands_known _ _ [w], bind_assoc]
      simp only [pure_bind, List.append_assoc, List.reverse_singleton, List.singleton_append,
        List.zip_cons_cons]

theorem Form.letBindings_constants {eval : Evaluation} {i : FrameId} {vs : List Value}
    (heval : eval.KeepsConstants) {bindings : List (String × Value)}
    (hconstant : ∀ b ∈ bindings, b.2.IsConstant) {made : List (String × Value)}
    (hnodup : (made.map Prod.fst ++ bindings.map Prod.fst).Nodup)
    (hvs : List.Forall₂ (fun v (b : String × Value) =>
      ∃ span, v.list? = some [.symbol b.1 span, b.2]) vs bindings) :
    letBindings eval i made vs = pure (made ++ bindings) := by
  have hzip : (bindings.map Prod.fst).zip (bindings.map Prod.snd) = bindings := by
    rw [List.zip_map', List.map_id']
  rw [letBindings_eq eval i hvs hnodup,
    Eval.operands_constants heval (List.forall_mem_map.mpr hconstant), pure_bind,
    List.reverse_nil, List.nil_append, hzip]

/-! ## What takes one step -/

/-- Whatever a single step ends is evaluated by that step. -/
def Evaluation.TakesSteps (eval : Evaluation) : Prop :=
  ∀ e i σ v τ, (∀ eval', Eval.step eval' e i σ = .value (.done v) τ) → eval e i σ = .value v τ

theorem Evaluation.TakesSteps.keepsConstants {eval : Evaluation} (h : eval.TakesSteps) :
    eval.KeepsConstants := by
  intro v i hv
  funext σ
  refine h v i σ v σ fun eval' => ?_
  cases v with
  | symbol name span => cases hv.symbol
  | pair id car cdr span => cases hv.car
  | _ => rfl

theorem Eval.nested_takesSteps {s : Settings} {level : Nat} (h : level < s.limit) (budget : Nat) :
    (Eval.nested s (budget + 1) level).TakesSteps := by
  intro e i σ v τ hstep
  rw [Eval.nested_of_lt h, Eval.run_succ, hstep]

namespace Evaluation.TakesSteps

variable {eval : Evaluation} {i : FrameId} {σ : State} {q v : Value}

theorem quote (h : eval.TakesSteps) (hq : q.IsForm .quote [v]) (i : FrameId) :
    eval q i = pure v := by
  obtain ⟨rest, span, hrest, hstep⟩ := Form.step_eq_perform hq
  funext σ
  refine h q i σ v σ fun eval' => ?_
  have hlength : Form.checkLength rest 1 (some 1) = .ok () :=
    Form.checkLength_of_list? hrest (Nat.le_refl _) fun _ h => by cases h; exact Nat.le_refl _
  obtain ⟨id, tail, rspan, rfl, -⟩ := Value.list?_eq_cons hrest
  rw [hstep, Form.perform, hlength]
  rfl

theorem symbol {name : String} (h : eval.TakesSteps) (hv : σ.frames.lookup name i = some v)
    (span : Span) : eval (.symbol name span) i σ = .value v σ := by
  refine h _ i σ v σ fun eval' => ?_
  rw [Eval.step, Action.bind_apply, Action.lookup, hv]
  rfl

end Evaluation.TakesSteps

namespace Form

variable {head formals hole : Value} {names : List String}

section

variable {rest : Value} {bodies : List Value} (hrest : rest.list? = some bodies)

include hrest

/-- Something in front of a body. -/
theorem list?_before_body (v : Value) (id : Identity) (span : Span) :
    (Value.pair id v rest span).list? = some (v :: bodies) := by
  rw [Value.list?_pair, hrest]
  rfl

theorem checkLength_before_body (hbodies : bodies ≠ []) (v : Value) (id : Identity) (span : Span) :
    checkLength (.pair id v rest span) 2 none = .ok () :=
  checkLength_of_list? (list?_before_body hrest v id span)
    (Nat.succ_le_succ (List.length_pos_iff.mpr hbodies)) nofun

/-- Where there is a body, all that can be wrong with a procedure is its formals. -/
theorem procedureParts_eq (hbodies : bodies ≠ []) (formals : Value) (id : Identity) (span : Span) :
    procedureParts (.pair id formals rest span) =
      (checkFormals formals).map fun _ => (formals, bodyExpression rest) := by
  have hlength := checkLength_before_body hrest hbodies formals id span
  simp only [procedureParts, hlength, uncons, bind, Except.bind, pure, Except.pure]
  cases checkFormals formals <;> rfl

end

theorem procedureParts_pair {rest : Value} {bodies : List Value} (hrest : rest.list? = some bodies)
    (hbodies : bodies ≠ []) (hformals : formals.Symbols names) (hnodup : names.Nodup)
    (id : Identity) (span : Span) :
    procedureParts (.pair id formals rest span) = .ok (formals, bodyExpression rest) := by
  have hcheck : checkFormals formals = .ok () :=
    checkFormalsAfter_symbols hformals hnodup fun _ _ h => by cases h
  rw [procedureParts_eq hrest hbodies, hcheck]
  rfl

theorem procedureParts_single {operands : Value} (h : operands.list? = some [formals, hole])
    (hformals : formals.Symbols names) (hnodup : names.Nodup) :
    procedureParts operands = .ok (formals, hole) := by
  obtain ⟨id, rest, span, rfl, hrest⟩ := Value.list?_eq_cons h
  rw [procedureParts_pair hrest (List.cons_ne_nil _ _) hformals hnodup,
    (bodyExpression_single hrest).1]

/-- A `lambda` is evaluated in one step, to a closure of the frame. -/
theorem step_lambda (h : head.IsForm .lambda [formals, hole]) (hformals : formals.Symbols names)
    (hnodup : names.Nodup) (i : FrameId) (σ : State) :
    ∃ span, ∀ eval, Eval.step eval head i σ =
      .value (.done (.lambda (.made σ.made) formals hole i span))
        { σ with made := σ.made + 1 } := by
  obtain ⟨rest, span, hrest, hstep⟩ := step_eq_perform h
  refine ⟨span, fun eval => ?_⟩
  rw [hstep, perform, makeLambda, procedureParts_single hrest hformals hnodup]
  rfl

theorem step_mu (h : head.IsForm .mu [formals, hole]) (hformals : formals.Symbols names)
    (hnodup : names.Nodup) (i : FrameId) (σ : State) :
    ∃ span, ∀ eval, Eval.step eval head i σ =
      .value (.done (.mu (.made σ.made) formals hole span)) { σ with made := σ.made + 1 } := by
  obtain ⟨rest, span, hrest, hstep⟩ := step_eq_perform h
  refine ⟨span, fun eval => ?_⟩
  rw [hstep, perform, makeMu, procedureParts_single hrest hformals hnodup]
  rfl

end Form

/-- A step on a call of what is no name of a form evaluates the callee and the operands. -/
theorem Eval.step_call {e head : Value} {args : List Value} (h : e.list? = some (head :: args))
    (hhead : head.symbol?.bind Form.ofName? = none) (eval : Evaluation) (i : FrameId) :
    Eval.step eval e i = (do
      let callee ← eval head i
      let vs ← Eval.operands eval i [] args
      Eval.apply eval i (.ofList vs) callee e.span) := by
  obtain ⟨id, rest, span, rfl, hrest⟩ := Value.list?_eq_cons h
  simp only [Eval.step, Value.isProper_of_list? hrest, hhead, Value.elements_of_list? hrest]
  rfl

/-- The call of a closure, made on the spot, with constants. -/
theorem Eval.step_call_constants {eval : Evaluation} {e head callee formals hole : Value}
    {bindings : List (String × Value)} {i : FrameId} {σ σ₁ : State} (heval : eval.KeepsConstants)
    (h : e.list? = some (head :: bindings.map Prod.snd)) (hhead : head.symbol? = none)
    (hcallee : eval head i σ = .value callee σ₁) (hf : callee.formals? = some formals)
    (hb : callee.body? = some hole) (hformals : formals.Symbols (bindings.map Prod.fst))
    (hnodup : (bindings.map Prod.fst).Nodup) (hconstant : ∀ b ∈ bindings, b.2.IsConstant) :
    Eval.step eval e i σ = .value (.eval hole σ₁.frames.size)
      (σ₁.push ⟨some (callee.home?.getD i), bindings⟩) := by
  have hstep := Eval.step_call h (by rw [hhead]; rfl) eval i
  have hargs : ∀ v ∈ bindings.map Prod.snd, v.IsConstant :=
    List.forall_mem_map.mpr hconstant
  have hlength : (Value.ofList (bindings.map Prod.snd)).length? =
      some (bindings.map Prod.fst).length := by
    rw [Value.length?_of_list? (Value.list?_ofList _), List.length_map, List.length_map]
  have hzip : (bindings.map Prod.fst).zip (bindings.map Prod.snd) = bindings := by
    rw [List.zip_map', List.map_id']
  rw [hstep, Eval.operands_constants heval hargs]
  simp only [Action.bind_apply, hcallee, Action.pure_apply, List.reverse_nil, List.nil_append]
  rw [Eval.apply_eq hf hb hformals hnodup, if_pos hlength, Value.elements_ofList, hzip]

end DualScope
