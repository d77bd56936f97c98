import DualScope.Proofs.CallChains
import DualScope.Proofs.FormSteps
import DualScope.Proofs.Shorthand

/-!
# A loop over a list

`(define (walk l) (if (null? l) 'done (walk (cdr l))))` calls itself in tail position. How deep an
evaluation of it goes is therefore a matter of the strategy alone: if what a step leaves is
evaluated at the same level then so is every round, and the list may be as long as it likes; if not
then a round goes two levels deeper, one for the call in the `if` and one for the body of the call.

Within a round the deepest that anything gets is the name of a primitive. It is a part of a call,
which is a part of the body, so there are three levels to a body: its own, that of `(null? l)` and
that of `null?`. The call that ends a round asks for no more, as `(cdr l)` is as deep below it as
the test below the body. That is all there is to the limit: the loop ends with `done` if the last
body has its three levels, and if not then it is refused, whichever round it has come to.

A round binds `l` in a frame of its own and changes nothing else.
-/

namespace DualScope

/-! ## The expressions -/

namespace Value

/-- The call, with one operand, of what a name means. -/
def IsCall (x : Value) (name : String) (operand : Value) : Prop :=
  ∃ span, x.list? = some [.symbol name span, operand]

/-- `(if (null? l) 'done (walk (cdr l)))`, with `done` at the span. -/
def IsWalkBody (body : Value) (span : Span) : Prop :=
  ∃ test quoted again rest lspan lspan',
    body.IsForm .ifElse [test, quoted, again] ∧ test.IsCall "null?" (.symbol "l" lspan) ∧
      quoted.IsForm .quote [.symbol "done" span] ∧ again.IsCall "walk" rest ∧
      rest.IsCall "cdr" (.symbol "l" lspan')

/-- `(define (walk l) (if (null? l) 'done (walk (cdr l))))` -/
def IsWalkDefinition (d : Value) (span : Span) : Prop :=
  ∃ nspan formals bodies body, d.IsShorthand (.symbol "walk" nspan) formals bodies ∧
    formals.Symbols ["l"] ∧ bodies.list? = some [body] ∧ body.IsWalkBody span

/-- The procedure of `l` with this body that was made in the frame. -/
structure IsWalk (p : Value) (g : FrameId) (body : Value) : Prop where
  formals : ∃ formals, p.formals? = some formals ∧ formals.Symbols ["l"]
  body_eq : p.body? = some body
  home : p.home? = some g

/-- `(walk (quote list))` -/
def IsWalkCall (x list : Value) : Prop :=
  ∃ q, x.IsCall "walk" q ∧ q.IsForm .quote [list]

end Value

/-! ## States -/

namespace State

/-- From the one state to the other there is nothing new but frames. -/
structure AddsFrames (σ τ : State) : Prop where
  made : τ.made = σ.made
  texts : τ.texts = σ.texts
  files : τ.files = σ.files
  log : τ.log = σ.log
  size : σ.frames.size ≤ τ.frames.size
  kept : ∀ i < σ.frames.size, τ.frames.get? i = σ.frames.get? i

theorem AddsFrames.refl (σ : State) : σ.AddsFrames σ where
  made := rfl
  texts := rfl
  files := rfl
  log := rfl
  size := Nat.le_refl _
  kept _ _ := rfl

theorem AddsFrames.trans {σ τ υ : State} (h₁ : σ.AddsFrames τ) (h₂ : τ.AddsFrames υ) :
    σ.AddsFrames υ where
  made := h₂.made.trans h₁.made
  texts := h₂.texts.trans h₁.texts
  files := h₂.files.trans h₁.files
  log := h₂.log.trans h₁.log
  size := Nat.le_trans h₁.size h₂.size
  kept i hi := (h₂.kept i (Nat.lt_of_lt_of_le hi h₁.size)).trans (h₁.kept i hi)

theorem addsFrames_push (σ : State) (f : Frame) : σ.AddsFrames (σ.push f) where
  made := rfl
  texts := rfl
  files := rfl
  log := rfl
  size := (grows_push σ f).size
  kept i hi := by rw [push, Frames.get?_push, if_neg (Nat.ne_of_lt hi)]

/-- In the frame, `walk` is the loop with this body, which was made there, and the procedures that
it calls are the primitives. -/
structure Walks (σ : State) (g : FrameId) (body : Value) : Prop where
  frame : g < σ.frames.size
  loop : ∃ p, σ.frames.lookup "walk" g = some p ∧ p.IsWalk g body
  isNil : ∃ span, σ.frames.lookup "null?" g = some (.primitive (.test .isNil) span)
  cdr : ∃ span, σ.frames.lookup "cdr" g = some (.primitive .cdr span)

/-- The state in the body of a call, made below `g`, of the loop with the list `v`. -/
def inRound (σ : State) (g : FrameId) (v : Value) : State :=
  σ.push ⟨some g, [("l", v)]⟩

variable {σ : State} {g : FrameId} {body v : Value}

theorem lookup_inRound (hg : g < σ.frames.size) (v : Value) (name : String) :
    (σ.inRound g v).frames.lookup name σ.frames.size =
      if name = "l" then some v else σ.frames.lookup name g := by
  rw [inRound, push, Frames.lookup_push_size hg, List.lookup_cons]
  by_cases h : name = "l"
  · rw [if_pos h, h]
    rfl
  · rw [if_neg h, beq_false_of_ne h]
    rfl

theorem Walks.inRound (h : σ.Walks g body) (v : Value) : (σ.inRound g v).Walks g body := by
  have hlookup (name : String) :
      (σ.inRound g v).frames.lookup name g = σ.frames.lookup name g :=
    Frames.lookup_push_of_lt _ h.frame
  refine ⟨Nat.lt_of_lt_of_le h.frame (addsFrames_push σ _).size, ?_, ?_, ?_⟩
  · rw [hlookup]
    exact h.loop
  · rw [hlookup]
    exact h.isNil
  · rw [hlookup]
    exact h.cdr

end State

namespace Eval

variable {s : Settings} {level budget : Nat} {i : FrameId} {σ : State} {x v w : Value}
  {name : String}

/-! ## Calls with one operand -/

/-- Where a name is one step away, a call of what it means is what this does with the operand. -/
theorem step_isCall {eval : Evaluation} {p operand : Value} (heval : eval.TakesSteps)
    (hx : x.IsCall name operand) (hname : Form.ofName? name = none)
    (hp : σ.frames.lookup name i = some p) :
    step eval x i σ =
      (eval operand i >>= fun v => apply eval i (.ofList [v]) p x.span) σ := by
  obtain ⟨span, hx⟩ := hx
  rw [step_call hx hname, Action.bind_apply, heval.symbol hp]
  simp only [operands, bind_assoc, pure_bind]
  rfl

theorem nested_isCall_of_le {operand : Value} (hx : x.IsCall name operand)
    (hname : Form.ofName? name = none) (hdeeper : s.limit ≤ level + 1) :
    nested s (budget + 1) level x i σ = .error (.tooDeep s.limit) σ := by
  obtain ⟨span, hx⟩ := hx
  exact nested_call_of_le hx hname hdeeper budget

/-- The call of a primitive with what a name means. -/
theorem nested_primitive {p : Primitive} {pspan nspan : Span} {n : String}
    (hx : x.IsCall name (.symbol n nspan)) (hname : Form.ofName? name = none)
    (hp : σ.frames.lookup name i = some (.primitive p pspan)) (happly : p ≠ .apply)
    (hv : σ.frames.lookup n i = some v)
    (hcall : ∀ eval, p.call eval i x.span [v] σ = .value w σ) (hroom : level + 1 < s.limit) :
    nested s (budget + 2) level x i σ = .value w σ := by
  have hsteps : (nested s (budget + 1) (level + 1)).TakesSteps := nested_takesSteps hroom budget
  rw [nested_eq_conclude (Nat.lt_of_succ_lt hroom), Action.bind_apply,
    step_isCall hsteps hx hname hp, Action.bind_apply, hsteps.symbol hv]
  simp only []
  rw [apply.eq_3 _ _ _ _ _ _ happly, Value.list?_ofList]
  simp only [Action.bind_apply, hcall]
  rfl

/-! ## A round -/

section

variable {g : FrameId} {body test quoted again rest : Value} {lspan : Span}

/-- A call of the loop is a round with the value of the operand. -/
theorem step_walk {eval : Evaluation} {operand : Value} (heval : eval.TakesSteps)
    (hσ : σ.Walks g body) (hi : σ.frames.lookup "walk" i = σ.frames.lookup "walk" g)
    (hx : x.IsCall "walk" operand) (hv : eval operand i σ = .value v σ) :
    step eval x i σ = .value (.eval body σ.frames.size) (σ.inRound g v) := by
  obtain ⟨p, hp, hloop⟩ := hσ.loop
  obtain ⟨formals, hformals, hsymbols⟩ := hloop.formals
  rw [step_isCall heval hx rfl (hi.trans hp), Action.bind_apply, hv]
  simp only []
  rw [apply_eq hformals hloop.body_eq hsymbols (List.nodup_singleton _), hloop.home]
  rfl

/-- Where there is no room for the test, that is the end of it. -/
theorem body_ends_refused (hbody : body.IsForm .ifElse [test, quoted, again])
    (htest : test.IsCall "null?" (.symbol "l" lspan)) (hfull : s.limit ≤ level + 2) (τ : State) :
    Ends s level body i τ (.error (.tooDeep s.limit) τ) := by
  by_cases hlevel : level < s.limit
  · have hstep : step (nested s 1 (level + 1)) body i τ = .error (.tooDeep s.limit) τ := by
      rw [Form.step_ifElse hbody, Action.bind_apply, nested_isCall_of_le htest rfl hfull]
    exact ends_of_step_error hlevel hstep
  · exact ends_of_le (Nat.le_of_not_lt hlevel) body i τ

variable (hσ : σ.Walks g body)

include hσ

theorem nested_walk_test (htest : test.IsCall "null?" (.symbol "l" lspan))
    (hroom : level + 1 < s.limit) :
    nested s (budget + 2) level test σ.frames.size (σ.inRound g v) =
      .value (.boolean (v.kind == .nil) test.span) (σ.inRound g v) := by
  obtain ⟨pspan, hnull⟩ := hσ.isNil
  have hlookup := State.lookup_inRound hσ.frame v
  exact nested_primitive htest rfl ((hlookup "null?").trans hnull) nofun (hlookup "l")
    (fun _ => rfl) hroom

theorem nested_walk_rest {id : Identity} {car cdr : Value} {vspan : Span}
    (hrest : rest.IsCall "cdr" (.symbol "l" lspan)) (hroom : level + 1 < s.limit) :
    nested s (budget + 2) level rest σ.frames.size (σ.inRound g (.pair id car cdr vspan)) =
      .value cdr (σ.inRound g (.pair id car cdr vspan)) := by
  obtain ⟨pspan, hcdr⟩ := hσ.cdr
  have hlookup := State.lookup_inRound hσ.frame (.pair id car cdr vspan)
  exact nested_primitive hrest rfl ((hlookup "cdr").trans hcdr) nofun (hlookup "l")
    (fun _ => rfl) hroom

/-- Where there is room for the test, a step on the body leaves the one or the other branch. -/
theorem body_ends_iff (hbody : body.IsForm .ifElse [test, quoted, again])
    (htest : test.IsCall "null?" (.symbol "l" lspan)) (hroom : level + 2 < s.limit)
    (r : Ending Value) :
    Ends s level body σ.frames.size (σ.inRound g v) r ↔
      Ends s (level + tailCost s.strategy) (if v.kind = .nil then quoted else again) σ.frames.size
        (σ.inRound g v) r := by
  refine ends_iff_of_leaves 2 (by omega) (fun budget => ?_) r
  rw [Form.step_ifElse hbody, Action.bind_apply, nested_walk_test hσ htest hroom]
  by_cases hv : v.kind = .nil
  · rw [if_pos hv, hv]
    rfl
  · rw [if_neg hv, beq_false_of_ne hv]
    rfl

theorem again_ends_iff {id : Identity} {car cdr : Value} {vspan : Span}
    (hagain : again.IsCall "walk" rest) (hrest : rest.IsCall "cdr" (.symbol "l" lspan))
    (hroom : level + 2 < s.limit) (r : Ending Value) :
    let τ := σ.inRound g (.pair id car cdr vspan)
    Ends s level again σ.frames.size τ r ↔
      Ends s (level + tailCost s.strategy) body τ.frames.size (τ.inRound g cdr) r := by
  intro τ
  refine ends_iff_of_leaves 2 (by omega) (fun budget => ?_) r
  have hsteps : (nested s (budget + 2) (level + 1)).TakesSteps := nested_takesSteps (by omega) _
  have hwalk : τ.frames.lookup "walk" σ.frames.size = τ.frames.lookup "walk" g :=
    (State.lookup_inRound hσ.frame _ "walk").trans (Frames.lookup_push_of_lt _ hσ.frame).symm
  exact step_walk hsteps (hσ.inRound _) hwalk hagain (nested_walk_rest hσ hrest hroom)

theorem again_ends_refused (hagain : again.IsCall "walk" rest)
    (hrest : rest.IsCall "cdr" (.symbol "l" lspan)) (hroom : level + 1 < s.limit)
    (hfull : s.limit ≤ level + 2) :
    Ends s level again σ.frames.size (σ.inRound g v)
      (.error (.tooDeep s.limit) (σ.inRound g v)) := by
  obtain ⟨p, hp, -⟩ := hσ.loop
  have hwalk := (State.lookup_inRound hσ.frame v "walk").trans hp
  have hstep : step (nested s 1 (level + 1)) again σ.frames.size (σ.inRound g v) =
      .error (.tooDeep s.limit) (σ.inRound g v) := by
    rw [step_isCall (nested_takesSteps hroom 0) hagain rfl hwalk, Action.bind_apply,
      nested_isCall_of_le hrest rfl hfull]
  exact ends_of_step_error (Nat.lt_of_succ_lt hroom) hstep

end

/-! ## The loop -/

/-- `done`, if the limit is so high, and otherwise the refusal. -/
def walked (s : Settings) (depth : Nat) (span : Span) (τ : State) : Ending Value :=
  if depth ≤ s.limit then .value (.symbol "done" span) τ else .error (.tooDeep s.limit) τ

section

variable {depth : Nat} {span : Span} {τ : State}

theorem walked_of_le (h : depth ≤ s.limit) :
    walked s depth span τ = .value (.symbol "done" span) τ :=
  if_pos h

theorem walked_of_lt (h : s.limit < depth) :
    walked s depth span τ = .error (.tooDeep s.limit) τ :=
  if_neg (Nat.not_le_of_lt h)

end

/-- The body for a list takes two levels for each of the elements, if what is left to do costs
one, and three levels at the end. -/
theorem body_ends {g : FrameId} {body : Value} {span : Span} {vs : List Value}
    (hbody : body.IsWalkBody span) (hσ : σ.Walks g body) (hv : v.list? = some vs) :
    ∃ τ, (σ.inRound g v).AddsFrames τ ∧
      Ends s level body σ.frames.size (σ.inRound g v)
        (walked s (level + vs.length * (2 * tailCost s.strategy) + 3) span τ) := by
  obtain ⟨test, quoted, again, rest, lspan, lspan', hform, htest, hquoted, hagain, hrest⟩ := hbody
  have hcost : tailCost s.strategy ≤ 1 := by cases s.strategy <;> decide
  -- The next round is made from the state of this one, deeper by two tail calls, and below the
  -- same frame. The call between the two is where a limit can be too low for that round alone.
  induction vs generalizing level σ v with
  | nil =>
      obtain ⟨vspan, rfl⟩ := Value.list?_eq_nil hv
      have hnil : (Value.nil vspan).kind = .nil := rfl
      rw [List.length_nil, Nat.zero_mul, Nat.add_zero]
      refine ⟨_, .refl _, ?_⟩
      by_cases hroom : level + 2 < s.limit
      · have hlevel : level + tailCost s.strategy < s.limit := by omega
        rw [walked_of_le hroom, body_ends_iff hσ hform htest hroom, if_pos hnil]
        exact ⟨nofun, 1, congrFun ((nested_takesSteps hlevel 0).quote hquoted _) _⟩
      · rw [walked_of_lt (by omega)]
        exact body_ends_refused hform htest (by omega) _
  | cons first others ih =>
      obtain ⟨id, cdr, vspan, rfl, hcdr⟩ := Value.list?_eq_cons hv
      have hnil : ¬ (Value.pair id first cdr vspan).kind = .nil := nofun
      rw [List.length_cons, Nat.succ_mul]
      by_cases hroom : level + 2 < s.limit
      · by_cases hroom' : level + tailCost s.strategy + 2 < s.limit
        · have hdepth : level +
              (others.length * (2 * tailCost s.strategy) + 2 * tailCost s.strategy) =
              level + tailCost s.strategy + tailCost s.strategy +
                others.length * (2 * tailCost s.strategy) := by omega
          obtain ⟨τ, hτ, hends⟩ := ih (hσ.inRound _) hcdr
          refine ⟨τ, (State.addsFrames_push _ _).trans hτ, ?_⟩
          rw [hdepth, body_ends_iff hσ hform htest hroom, if_neg hnil]
          exact (again_ends_iff hσ hagain hrest hroom' _).mpr hends
        · refine ⟨_, .refl _, ?_⟩
          rw [walked_of_lt (by omega), body_ends_iff hσ hform htest hroom, if_neg hnil]
          exact again_ends_refused hσ hagain hrest (by omega) (by omega)
      · refine ⟨_, .refl _, ?_⟩
        rw [walked_of_lt (by omega)]
        exact body_ends_refused hform htest (by omega) _

/-- Behind its definition the loop is what the name means. -/
theorem isWalk_of_definition {d : Value} {g : FrameId} {span : Span} {τ : State}
    (hd : d.IsWalkDefinition span) (hg : g < σ.frames.size)
    (hends : Ends s level d g σ (.value v τ)) :
    ∃ p body, τ.frames.lookup "walk" g = some p ∧ p.IsWalk g body ∧ body.IsWalkBody span := by
  obtain ⟨nspan, formals, bodies, body, hd, hformals, hbodies, hbody⟩ := hd
  have hlevel : level < s.limit := by
    by_contra hfull
    cases (ends_of_le (Nat.le_of_not_lt hfull) d g σ).unique hends
  have hcheck : Form.checkFormals formals = .ok () :=
    Form.checkFormalsAfter_symbols hformals (List.nodup_singleton _) nofun
  have hshort := shorthand_ends (i := g) (σ := σ) hbodies (List.cons_ne_nil _ _) hd hlevel
  rw [hcheck] at hshort
  cases hshort.unique hends
  refine ⟨_, body, Frames.lookup_bind_self hg _ _, ⟨⟨formals, rfl, hformals⟩, ?_, rfl⟩, hbody⟩
  exact congrArg some (Form.bodyExpression_single hbodies).1

/-- How deep it goes to walk along a list of so many elements. -/
def walkDepth : Strategy → Nat → Nat
  | .tailCall, _ => 3
  | .recursive, n => 2 * n + 4

/-- In a frame where the loop has been defined and its name still means what it meant then, and
where the procedures that it calls are the primitives, a call of the loop with a list ends with
`done` if the limit leaves as many levels as it takes: three, however long the list is, where a tail
call costs none, and otherwise two for each of the elements and four. If the limit leaves fewer the
call is refused for its depth. Either way there is nothing new behind it but frames, and the
bindings of the frame are what they were. -/
theorem walk_ends_iff {d l : Value} {vs : List Value} {g : FrameId} {s₀ : Settings} {level₀ : Nat}
    {σ₀ σ₁ : State} {span nspan cspan : Span} (hd : d.IsWalkDefinition span)
    (hg : g < σ₀.frames.size) (hdefined : Ends s₀ level₀ d g σ₀ (.value v σ₁))
    (hwalk : σ.frames.lookup "walk" g = σ₁.frames.lookup "walk" g)
    (hnull : σ.frames.lookup "null?" g = some (.primitive (.test .isNil) nspan))
    (hcdr : σ.frames.lookup "cdr" g = some (.primitive .cdr cspan)) (hl : l.list? = some vs)
    (hx : x.IsWalkCall l) (s : Settings) (level : Nat) :
    ∃ τ, σ.AddsFrames τ ∧ τ.frames.get? g = σ.frames.get? g ∧
      ∀ r, Ends s level x g σ r ↔
        r = if level + walkDepth s.strategy vs.length ≤ s.limit then .value (.symbol "done" span) τ
          else .error (.tooDeep s.limit) τ := by
  obtain ⟨p, body, hp, hloop, hbody⟩ := isWalk_of_definition hd hg hdefined
  have hσ : σ.Walks g body :=
    ⟨Frames.lt_size_of_lookup hcdr, ⟨p, hwalk.trans hp, hloop⟩, ⟨nspan, hnull⟩, ⟨cspan, hcdr⟩⟩
  obtain ⟨q, hx, hq⟩ := hx
  have hdepth : level + walkDepth s.strategy vs.length =
      level + tailCost s.strategy + vs.length * (2 * tailCost s.strategy) + 3 := by
    cases s.strategy <;> simp only [walkDepth, tailCost] <;> omega
  rw [hdepth]
  by_cases hroom : level + 1 < s.limit
  · obtain ⟨τ, hτ, hends⟩ := body_ends hbody hσ hl
    have hentered : σ.AddsFrames τ := (State.addsFrames_push σ _).trans hτ
    have hstep (budget : Nat) : step (nested s (budget + 1) (level + 1)) x g σ =
        .value (.eval body σ.frames.size) (σ.inRound g l) := by
      have hsteps : (nested s (budget + 1) (level + 1)).TakesSteps := nested_takesSteps hroom budget
      exact step_walk hsteps hσ rfl hx (congrFun (hsteps.quote hq g) σ)
    refine ⟨τ, hentered, hentered.kept g hσ.frame, fun r => ?_⟩
    exact (ends_iff_of_leaves 1 (Nat.lt_of_succ_lt hroom) hstep r).trans hends.iff_eq
  · refine ⟨σ, .refl σ, rfl, fun r => ?_⟩
    rw [if_neg (by omega)]
    have hfull : s.limit ≤ level + 1 := Nat.le_of_not_lt hroom
    exact Ends.iff_eq ⟨by simp, 1, nested_isCall_of_le hx rfl hfull⟩

section

/-- `(walk e)` -/
def walkOf (e : Value) : Value :=
  .ofList [.symbol "walk" .none, e]

/-- `(if (null? l) 'done (walk (cdr l)))` -/
def walkBody : Value :=
  .ofList [.symbol "if" .none, .ofList [.symbol "null?" .none, .symbol "l" .none],
    .ofList [.symbol "quote" .none, .symbol "done" .none],
    walkOf (.ofList [.symbol "cdr" .none, .symbol "l" .none])]

/-- `(define (walk l) (if (null? l) 'done (walk (cdr l))))` -/
def walkDefinition : Value :=
  .ofList [.symbol "define" .none, walkOf (.symbol "l" .none), walkBody]

/-- `(walk (quote (a ())))` -/
def walkPair : Value :=
  walkOf (.ofList [.symbol "quote" .none, .ofList [.symbol "a" .none, .nil .none]])

/-- For two elements the loop takes three levels, or eight if tail calls go deeper. -/
theorem walk_ends_iff_pair :
    let σ₀ := Session.start fun _ => .error .notFound
    let σ := defined σ₀ 0 "walk" (.ofList [.symbol "l" .none]) (.ofList [walkBody])
      walkDefinition.span
    let done (s : Settings) := ∃ τ, σ.AddsFrames τ ∧
      Ends s 0 walkPair 0 σ (.value (.symbol "done" .none) τ)
    let refused (s : Settings) := ∃ τ, σ.AddsFrames τ ∧
      Ends s 0 walkPair 0 σ (.error (.tooDeep s.limit) τ)
    Ends ⟨.recursive, 1⟩ 0 walkDefinition 0 σ₀ (.value (.symbol "walk" .none) σ) ∧
      done ⟨.tailCall, 3⟩ ∧ refused ⟨.tailCall, 2⟩ ∧ done ⟨.recursive, 8⟩ ∧
        refused ⟨.recursive, 7⟩ := by
  intro σ₀ σ done refused
  have hd : walkDefinition.IsWalkDefinition .none :=
    ⟨.none, .ofList [.symbol "l" .none], .ofList [walkBody], walkBody, ⟨_, _, _, _, _, _, _, rfl⟩,
      .cons _ _ _ _ (.nil _), rfl, _, _, _, _, _, _, ⟨.none, rfl⟩, ⟨.none, rfl⟩, ⟨.none, rfl⟩,
      ⟨.none, rfl⟩, ⟨.none, rfl⟩⟩
  have hdefined : Ends ⟨.recursive, 1⟩ 0 walkDefinition 0 σ₀ (.value (.symbol "walk" .none) σ) :=
    ⟨nofun, 1, rfl⟩
  have hlookup (name : String) : σ.frames.lookup name 0 = _ :=
    Frames.lookup_of_orphan (f := Frame.global.bind "walk" _) rfl rfl name
  have hnull : σ.frames.lookup "null?" 0 = some (.primitive (.test .isNil) .none) :=
    (hlookup "null?").trans rfl
  have hcdr : σ.frames.lookup "cdr" 0 = some (.primitive .cdr .none) := (hlookup "cdr").trans rfl
  have hpair : walkPair.IsWalkCall (.ofList [.symbol "a" .none, .nil .none]) :=
    ⟨_, ⟨.none, rfl⟩, ⟨.none, rfl⟩⟩
  have hends (s : Settings) := walk_ends_iff hd Nat.zero_lt_one hdefined rfl hnull hcdr
    (Value.list?_ofList _) hpair s 0
  refine ⟨hdefined, ?_, ?_, ?_, ?_⟩
  · obtain ⟨τ, hτ, -, h⟩ := hends ⟨.tailCall, 3⟩
    exact ⟨τ, hτ, (h _).mpr rfl⟩
  · obtain ⟨τ, hτ, -, h⟩ := hends ⟨.tailCall, 2⟩
    exact ⟨τ, hτ, (h _).mpr rfl⟩
  · obtain ⟨τ, hτ, -, h⟩ := hends ⟨.recursive, 8⟩
    exact ⟨τ, hτ, (h _).mpr rfl⟩
  · obtain ⟨τ, hτ, -, h⟩ := hends ⟨.recursive, 7⟩
    exact ⟨τ, hτ, (h _).mpr rfl⟩

end

end Eval

end DualScope
