import DualScope.Proofs.Ends
import DualScope.Proofs.Placement

/-!
# Running a source and evaluating a text

There are two ways to have a text evaluated. To run it as a source is to read an expression,
evaluate it, report its error if it has one, and go on with the next; a fault of the reader is
reported in its turn and ends the run. To evaluate the text is to read all of it first, and to
stop at the first error.

Here the first is described without a budget and without reading ahead: the expressions are those
that the reader finds one after another, and each is evaluated to its end from the state that is
left of the one before. Nothing in the description counts reports, so those that a `load` adds on
the way are not counted. Where the second succeeds, no report is added and both leave the same
state.
-/

namespace DualScope

/-! ## Reading one expression after another -/

namespace Reader

/-- Read one after another, the tokens are the expressions, and then at an end or at a fault. -/
inductive Successive : List Token → List Value → Option ReadError → Prop
  | ended : Successive [] [] none
  | fault {ts : List Token} {e : ReadError} : ts ≠ [] → next ts = .error e →
    Successive ts [] (some e)
  | expression {ts rest : List Token} {v : Value} {vs : List Value} {fault : Option ReadError} :
    next ts = .ok (v, rest) → Successive rest vs fault → Successive ts (v :: vs) fault

theorem next_shortens {ts rest : List Token} {v : Value} (h : next ts = .ok (v, rest)) :
    rest.length < ts.length := by
  obtain ⟨used, rfl, hv⟩ := next_sound h
  have hpos := List.length_pos_iff.mpr hv.ne_nil
  rw [List.length_append]
  omega

theorem all_of_next {ts rest : List Token} {v : Value} (h : next ts = .ok (v, rest)) :
    all ts = (v :: (all rest).1, (all rest).2) := by
  have hne : ts ≠ [] := by
    rintro rfl
    cases h
  rw [all, collect_eq fun _ => hne, show finish start ts = _ from h]
  exact collect_before [v] start rest

theorem all_of_fault {ts : List Token} {e : ReadError} (hne : ts ≠ []) (h : next ts = .error e) :
    all ts = ([], some e) := by
  rw [all, collect_eq fun _ => hne, show finish start ts = _ from h]
  rfl

theorem Successive.all_eq {ts : List Token} {vs : List Value} {fault : Option ReadError}
    (h : Successive ts vs fault) : all ts = (vs, fault) := by
  induction h with
  | ended => rfl
  | fault hne hnext => exact all_of_fault hne hnext
  | expression hnext _ ih => rw [all_of_next hnext, ih]

/-- To read a text as a whole is to read its expressions one after another. -/
theorem successive_all (ts : List Token) : Successive ts (all ts).1 (all ts).2 := by
  induction hn : ts.length using Nat.strongRecOn generalizing ts with
  | ind n ih =>
      by_cases hne : ts = []
      · subst hne
        exact .ended
      cases hnext : next ts with
      | error e =>
          rw [all_of_fault hne hnext]
          exact .fault hne hnext
      | ok read =>
          obtain ⟨v, rest⟩ := read
          rw [all_of_next hnext]
          exact .expression hnext (ih _ (hn ▸ next_shortens hnext) rest rfl)

end Reader

/-! ## Evaluating one expression after another -/

/-- The state with a value written to it that is to be shown. -/
def State.echoed (echo : Bool) (v : Value) (σ : State) : State :=
  if echo && !v.isOkay then σ.emit (.wrote (v.text ++ "\n")) else σ

namespace Run

open Eval

/-- The expressions are evaluated in order, each to its end and from the state that is left of
the one before, and behind each there is its value if it is to be shown, or else a report of its
error. The number is that of the expressions that have an error. -/
inductive Through (s : Settings) (level : Nat) (i : FrameId) (source text : String) (echo : Bool) :
    List Value → State → Nat → State → Prop
  | nil (σ : State) : Through s level i source text echo [] σ 0 σ
  | value {e v : Value} {es : List Value} {n : Nat} {σ σ₁ σ₂ : State} :
    Ends s level e i σ (.value v σ₁) →
      Through s level i source text echo es (σ₁.echoed echo v) n σ₂ →
        Through s level i source text echo (e :: es) σ n σ₂
  | error {e : Value} {err : EvalError} {es : List Value} {n : Nat} {σ σ₁ σ₂ : State} :
    Ends s level e i σ (.error err σ₁) →
      Through s level i source text echo es (σ₁.emit (.reported source text (.eval err))) n σ₂ →
        Through s level i source text echo (e :: es) σ (n + 1) σ₂

/-- The run of a source in frame `i`, begun `level` evaluations deep, comes to the end `r`. -/
def SourceEnds (s : Settings) (level : Nat) (i : FrameId) (source text : String) (echo : Bool)
    (σ : State) (r : Ending Nat) : Prop :=
  r ≠ .cutShort ∧ ∃ budget, Run.source (nested s budget level) i source text echo σ = r

variable {eval : Evaluation} {s : Settings} {budget level : Nat} {i : FrameId}
  {source text : String} {echo : Bool} {errors n : Nat} {e v : Value} {es : List Value}
  {err : EvalError} {σ σ' σ₁ : State}

/-! ### Steps of the loop -/

theorem expressions_of_value (h : eval e i σ = .value v σ₁) :
    expressions eval i source text echo errors (e :: es) σ =
      expressions eval i source text echo errors es (σ₁.echoed echo v) := by
  rw [expressions, Action.bind_apply, Action.attempt_apply, h, State.echoed]
  dsimp only
  split <;> rfl

theorem expressions_of_error (h : eval e i σ = .error err σ₁) :
    expressions eval i source text echo errors (e :: es) σ =
      expressions eval i source text echo (errors + 1) es
        (σ₁.emit (.reported source text (.eval err))) := by
  rw [expressions, Action.bind_apply, Action.attempt_apply, h]
  rfl

theorem expressions_of_cutShort (h : eval e i σ = .cutShort) :
    expressions eval i source text echo errors (e :: es) σ = .cutShort := by
  rw [expressions, Action.bind_apply, Action.attempt_apply, h]

/-! ### The whole loop -/

theorem Through.of_expressions
    (h : expressions (nested s budget level) i source text echo errors es σ = .value n σ') :
    ∃ k, n = errors + k ∧ Through s level i source text echo es σ k σ' := by
  induction es generalizing errors σ with
  | nil =>
      cases h
      exact ⟨0, rfl, .nil _⟩
  | cons e es ih =>
      cases hend : nested s budget level e i σ with
      | value v σ₁ =>
          rw [expressions_of_value hend] at h
          obtain ⟨k, hn, hrest⟩ := ih h
          exact ⟨k, hn, .value ⟨nofun, budget, hend⟩ hrest⟩
      | error err σ₁ =>
          rw [expressions_of_error hend] at h
          obtain ⟨k, rfl, hrest⟩ := ih h
          exact ⟨k + 1, by omega, .error ⟨nofun, budget, hend⟩ hrest⟩
      | cutShort =>
          rw [expressions_of_cutShort hend] at h
          cases h

/-- From some budget on there is enough of it for every expression. -/
theorem Through.expressions (h : Through s level i source text echo es σ n σ') :
    ∃ least, ∀ budget, least ≤ budget → ∀ errors,
      Run.expressions (nested s budget level) i source text echo errors es σ =
        .value (errors + n) σ' := by
  induction h with
  | nil σ => exact ⟨0, fun _ _ _ => rfl⟩
  | value hend _ ih =>
      obtain ⟨hne, enough, hrun⟩ := hend
      obtain ⟨least, ih⟩ := ih
      refine ⟨max enough least, fun budget hle errors => ?_⟩
      rw [expressions_of_value (nested_stable hrun hne (by omega))]
      exact ih budget (by omega) errors
  | error hend _ ih =>
      obtain ⟨hne, enough, hrun⟩ := hend
      obtain ⟨least, ih⟩ := ih
      refine ⟨max enough least, fun budget hle errors => ?_⟩
      rw [expressions_of_error (nested_stable hrun hne (by omega)), ih budget (by omega)]
      congr 1
      omega

theorem Through.unique {n' : Nat} {σ'' : State}
    (h : Through s level i source text echo es σ n σ')
    (h' : Through s level i source text echo es σ n' σ'') : n' = n ∧ σ'' = σ' := by
  induction h generalizing n' with
  | nil σ =>
      cases h'
      exact ⟨rfl, rfl⟩
  | value hend _ ih =>
      cases h' with
      | value hend' hrest =>
          cases hend.unique hend'
          exact ih hrest
      | error hend' hrest => cases hend.unique hend'
  | error hend _ ih =>
      cases h' with
      | value hend' hrest => cases hend.unique hend'
      | error hend' hrest =>
          cases hend.unique hend'
          obtain ⟨rfl, hσ⟩ := ih hrest
          exact ⟨rfl, hσ⟩

/-! ### Whole sources -/

theorem source_of_lexical {e : LexError} (h : tokenize text = .error e) :
    Run.source eval i source text echo σ =
      .value 1 (σ.emit (.reported source text (.read (.lexical e)))) := by
  rw [Run.source, lexemes_eq_error_iff.mpr ⟨e, h, rfl⟩]
  rfl

/-- How a run ends that comes to the end of its text, or to a fault in it. -/
def finished (source text : String) (n : Nat) (σ : State) : Option ReadError → Ending Nat
  | none => .value n σ
  | some e => .value (n + 1) (σ.emit (.reported source text (.read e)))

theorem source_of_tokens {ts : List Token} (h : tokenize text = .ok ts) :
    Run.source eval i source text echo σ =
      match expressions eval i source text echo 0 (Value.stampAll σ.texts (Reader.all ts).1)
        { σ with texts := σ.texts + 1 } with
      | .value n σ' => finished source text n σ' (Reader.all ts).2
      | .error e σ' => .error e σ'
      | .cutShort => .cutShort := by
  rw [Run.source, lexemes_eq_ok_iff.mpr h]
  dsimp only
  rw [Action.bind_apply]
  dsimp only [enter]
  rw [Action.bind_apply]
  generalize expressions eval i source text echo 0 _ _ = r
  cases r with
  | value n σ' => cases (Reader.all ts).2 <;> rfl
  | error e σ' => rfl
  | cutShort => rfl

theorem sourceEnds_iff {ts : List Token} (h : tokenize text = .ok ts) {r : Ending Nat} :
    SourceEnds s level i source text echo σ r ↔
      ∃ n σ', Through s level i source text echo (Value.stampAll σ.texts (Reader.all ts).1)
          { σ with texts := σ.texts + 1 } n σ' ∧
        r = finished source text n σ' (Reader.all ts).2 := by
  unfold SourceEnds
  simp only [source_of_tokens h]
  constructor
  · rintro ⟨hne, budget, rfl⟩
    cases hrun : expressions (nested s budget level) i source text echo 0
        (Value.stampAll σ.texts (Reader.all ts).1) { σ with texts := σ.texts + 1 } with
    | value n σ' =>
        obtain ⟨k, rfl, hthrough⟩ := Through.of_expressions hrun
        exact ⟨k, σ', hthrough, by rw [Nat.zero_add]⟩
    | error e σ' => exact absurd hrun (expressions_ne_error _ _ _ _ _)
    | cutShort =>
        rw [hrun] at hne
        exact absurd rfl hne
  · rintro ⟨n, σ', hthrough, rfl⟩
    obtain ⟨least, hrun⟩ := hthrough.expressions
    refine ⟨by cases (Reader.all ts).2 <;> nofun, least, ?_⟩
    rw [hrun least (Nat.le_refl _), Nat.zero_add]

/-! ### Sources without errors -/

/-- Where the last of the values is found, each is, and nothing is reported or shown. -/
theorem Through.of_lastValue {last : Value}
    (h : lastValue (nested s budget level) i last es σ = .value v σ') :
    Through s level i source text false es σ 0 σ' := by
  induction es generalizing last σ with
  | nil =>
      cases h
      exact .nil _
  | cons e es ih =>
      rw [lastValue, Action.bind_apply] at h
      cases hend : nested s budget level e i σ with
      | value w σ₁ =>
          rw [hend] at h
          exact .value ⟨by simp, budget, hend⟩ (ih h)
      | error err σ₁ =>
          rw [hend] at h
          cases h
      | cutShort =>
          rw [hend] at h
          cases h

end Run

/-! ## The two ways -/

namespace Session

open Reader (Successive)

/-- The run of a source in the global frame comes to the end `r`. -/
def SourceEnds (s : Settings) (source text : String) (echo : Bool) (σ : State) (r : Ending Nat) :
    Prop :=
  r ≠ .cutShort ∧ ∃ budget, runSource s budget source text echo σ = r

variable {s : Settings} {source text : String} {echo : Bool} {σ σ' : State}

theorem sourceEnds_of_lexical {e : LexError} (h : tokenize text = .error e) {r : Ending Nat} :
    SourceEnds s source text echo σ r ↔
      r = .value 1 (σ.emit (.reported source text (.read (.lexical e)))) := by
  have hsource : ∀ budget, runSource s budget source text echo σ = _ :=
    fun _ => Run.source_of_lexical h
  constructor
  · rintro ⟨-, budget, rfl⟩
    exact hsource budget
  · rintro rfl
    exact ⟨nofun, 0, hsource 0⟩

/-- A text that is evaluated with success can be read, and its expressions have values. -/
theorem sourceEnds_of_textEnds {v : Value} (h : TextEnds s text σ (.value (.ok v) σ')) :
    SourceEnds s source text false σ (.value 0 σ') := by
  obtain ⟨-, budget, hrun⟩ := h
  cases hread : readProgram text with
  | error e =>
      rw [evalText, Run.program, hread] at hrun
      cases hrun
  | ok es =>
      obtain ⟨ts, htokens, hprogram⟩ := lexemes_bind_eq_ok_iff.mp hread
      have hall : Reader.all ts = (es, none) := by
        rw [Reader.program] at hprogram
        split at hprogram <;> cases hprogram
        assumption
      refine (Run.sourceEnds_iff htokens).mpr ⟨0, σ', ?_, ?_⟩
      · rw [evalText_eq hread] at hrun
        split at hrun <;> cases hrun
        rw [hall]
        exact .of_lastValue ‹_›
      · rw [hall]
        rfl

theorem textEnds_of_unread {e : ReadError} (h : readProgram text = .error e)
    {r : Ending (Except RunError Value)} :
    TextEnds s text σ r ↔ r = .value (.error (.read e)) σ := by
  have htext : ∀ budget, evalText s budget text σ = .value (.error (.read e)) σ := by
    intro budget
    rw [evalText, Run.program, h]
    rfl
  constructor
  · rintro ⟨-, budget, rfl⟩
    exact htext budget
  · rintro rfl
    exact ⟨by simp, 0, htext 0⟩

theorem SourceEnds.unique {r r' : Ending Nat} (h : SourceEnds s source text echo σ r)
    (h' : SourceEnds s source text echo σ r') : r' = r := by
  cases htokens : tokenize text with
  | error e =>
      rw [sourceEnds_of_lexical htokens] at h h'
      rw [h, h']
  | ok ts =>
      obtain ⟨n, σ₁, hthrough, rfl⟩ := (Run.sourceEnds_iff htokens).mp h
      obtain ⟨n', σ₁', hthrough', rfl⟩ := (Run.sourceEnds_iff htokens).mp h'
      obtain ⟨rfl, rfl⟩ := hthrough.unique hthrough'
      rfl

/-- A source that is no row of tokens is reported and not run. Of any other, the expressions up
to a fault or the end are evaluated in order, each from what is left of the one before, and what
is counted is the errors they have, and the fault. Where to evaluate the text succeeds, to run it
counts no error and leaves the same state; where the text cannot be read, to evaluate it leaves
the state as it is. -/
theorem source_runs (s : Settings) (source text : String) (σ : State) :
    (∀ echo e, tokenize text = .error e → ∀ r, SourceEnds s source text echo σ r ↔
        r = .value 1 (σ.emit (.reported source text (.read (.lexical e))))) ∧
      (∀ ts, tokenize text = .ok ts → (∃ es fault, Successive ts es fault) ∧
        ∀ es fault, Successive ts es fault → ∀ echo r, SourceEnds s source text echo σ r ↔
          ∃ n σ', Run.Through s 0 root source text echo (Value.stampAll σ.texts es)
              { σ with texts := σ.texts + 1 } n σ' ∧
            r = Run.finished source text n σ' fault) ∧
      (∀ v σ', TextEnds s text σ (.value (.ok v) σ') →
        ∀ r, SourceEnds s source text false σ r ↔ r = .value 0 σ') ∧
      ∀ e, readProgram text = .error e →
        ∀ r, TextEnds s text σ r ↔ r = .value (.error (.read e)) σ := by
  refine ⟨fun echo e he r => sourceEnds_of_lexical he, fun ts hts => ⟨?_, ?_⟩,
    fun v σ' hend r => ?_, fun e he r => textEnds_of_unread he⟩
  · exact ⟨_, _, Reader.successive_all ts⟩
  · intro es fault hsuccessive echo r
    have hsource : SourceEnds s source text echo σ r ↔ _ := Run.sourceEnds_iff hts
    rw [hsuccessive.all_eq] at hsource
    exact hsource
  · have hsource : SourceEnds s source text false σ _ := sourceEnds_of_textEnds hend
    exact ⟨hsource.unique, fun h => h ▸ hsource⟩

section

theorem ends_unbound (s : Settings) {level : Nat} (h : level < s.limit) {name : String}
    (span : Span) {i : FrameId} {σ : State} (hname : σ.frames.lookup name i = none) :
    Eval.Ends s level (.symbol name span) i σ (.error (.unbound name span) σ) := by
  refine ⟨nofun, 1, ?_⟩
  rw [Eval.nested_of_lt h, Eval.run_eq_bind, Action.bind_apply, Eval.step, Action.bind_apply,
    Action.lookup, hname]

/-- Both the symbol, which has no value here, and the bracket are reported and counted. To
evaluate the same text reports nothing. -/
theorem source_runs_unbound :
    let s : Settings := ⟨.tailCall, 10⟩
    let σ := emptyDirectory
    let text := "y )"
    let unbound := RunError.eval (.unbound "y" ⟨0, 1⟩)
    let fault := ReadError.unexpected ⟨.closeParen, ⟨2, 3⟩⟩ .expression
    let unended := ReadError.lexical ⟨.unterminatedString, ⟨0, 1⟩⟩
    (∀ r, SourceEnds s "input" "\"" true σ r ↔
        r = .value 1 (σ.emit (.reported "input" "\"" (.read unended)))) ∧
      SourceEnds s "input" text true σ
        (.value 2 (({ σ with texts := 1 }.emit (.reported "input" text unbound)).emit
          (.reported "input" text (.read fault)))) ∧
      (∀ r, SourceEnds s "input" "#t" false σ r ↔ r = .value 0 { σ with texts := 1 }) ∧
      ∀ r, TextEnds s text σ r ↔ r = .value (.error (.read fault)) σ := by
  intro s σ text unbound fault unended
  have hquote : tokenize "\"" = .error ⟨.unterminatedString, ⟨0, 1⟩⟩ := by decide +kernel
  have htokens : tokenize text = .ok [⟨.symbol "y", ⟨0, 1⟩⟩, ⟨.closeParen, ⟨2, 3⟩⟩] := by
    decide +kernel
  have hread : readProgram text = .error fault := by decide +kernel
  have hsuccessive : Successive [⟨.symbol "y", ⟨0, 1⟩⟩, ⟨.closeParen, ⟨2, 3⟩⟩]
      [.symbol "y" ⟨0, 1⟩] (some fault) := .expression rfl (.fault nofun rfl)
  have hy : Run.Through s 0 root "input" text true [.symbol "y" ⟨0, 1⟩] { σ with texts := 1 } 1
      ({ σ with texts := 1 }.emit (.reported "input" text unbound)) := by
    refine .error (ends_unbound s (by decide) _ ?_) (.nil _)
    rw [Frames.lookup.eq_def]
    rfl
  have hvalue : TextEnds s "#t" σ (.value (.ok (.boolean true ⟨0, 2⟩)) { σ with texts := 1 }) := by
    refine ⟨nofun, 1, ?_⟩
    rw [evalText_eq (show readProgram "#t" = .ok [.boolean true ⟨0, 2⟩] by decide +kernel)]
    rfl
  refine ⟨(source_runs s "input" "\"" σ).1 true _ hquote, ?_,
    (source_runs s "input" "#t" σ).2.2.1 _ _ hvalue,
    (source_runs s "input" text σ).2.2.2 fault hread⟩
  exact (((source_runs s "input" text σ).2.1 _ htokens).2 _ _ hsuccessive true _).mpr
    ⟨1, _, hy, rfl⟩

end

end Session

end DualScope
