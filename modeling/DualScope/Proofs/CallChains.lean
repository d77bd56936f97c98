import DualScope.Proofs.Constants

/-!
# Names in chains of calls

A procedure whose body is a call of another one, whose body is a call of a third, and so on: where
such a chain ends in a name, what the name means is told by the calls from the innermost outwards.
A call whose procedure has the name among its formals gives it the argument. Beyond that a
`lambda` has no use for who called it: what the name means in the frame that it was made in is
the end of the search. A `mu` hands the search on to its caller.

The search goes from the inside to the outside, and the frames are made from the outside to the
inside. What connects the two is what one call changes (`meaning_push`): behind it, the calls
further inside find a name in the new frames as they found it before with this call as the last
one to ask. The strategies differ in how deep the calls are, and in nothing else.
-/

namespace DualScope

/-! ## Names in new frames -/

namespace Frames

variable {fs : Frames} {name : String}

theorem lt_size_of_lookup {i : FrameId} {v : Value} (h : fs.lookup name i = some v) :
    i < fs.size := by
  by_contra hi
  have hnone : fs.get? i = none := Option.not_isSome_iff_eq_none.mp (mt get?_isSome.mp hi)
  rw [lookup.eq_def, hnone] at h
  cases h

/-- A name that has been bound in a frame means its value there. -/
theorem lookup_bind_self {i : FrameId} (hi : i < fs.size) (name : String) (v : Value) :
    (fs.bind i name v).lookup name i = some v := by
  obtain ⟨f, hf⟩ := Option.isSome_iff_exists.mp (get?_isSome.mpr hi)
  rw [lookup.eq_def, get?_bind, if_pos rfl, hf]
  simp only [Option.map_some, Frame.find?_bind, if_true]

/-- A new frame has no bearing on what names mean in the frames that are there. -/
theorem lookup_push_of_lt (f : Frame) {i : FrameId} (hi : i < fs.size) :
    (fs.push f).lookup name i = fs.lookup name i := by
  induction i using Nat.strongRecOn with
  | ind i ih =>
      rw [lookup.eq_def, lookup.eq_def, get?_push, if_neg (Nat.ne_of_lt hi)]
      cases fs.get? i with
      | none => rfl
      | some g =>
          simp only []
          cases g.find? name with
          | some v => rfl
          | none =>
              cases g.parent with
              | none => rfl
              | some p =>
                  simp only []
                  split
                  · next hp => exact ih p hp (Nat.lt_trans hp hi)
                  · rfl

/-- In a new frame a name is bound there, or means what it means in the parent. -/
theorem lookup_push_size {p : FrameId} (hp : p < fs.size) (bindings : List (String × Value)) :
    (fs.push ⟨some p, bindings⟩).lookup name fs.size =
      (bindings.lookup name <|> fs.lookup name p) := by
  rw [lookup.eq_def, get?_push, if_pos rfl]
  simp only [Frame.find?]
  cases bindings.lookup name with
  | some v => rfl
  | none =>
      simp only [if_pos hp]
      exact lookup_push_of_lt _ hp

end Frames

/-! ## Chains -/

/-- A call of a closure: the frame that the closure was made in, if it is a `lambda`, and its
formals with the arguments. -/
structure Call where
  home : Option FrameId
  bindings : List (String × Value)

namespace Call

/-- The first expression is this call, with the closure itself in front of constants, and the
second one is the body of the closure. -/
structure Around (c : Call) (outer body : Value) : Prop where
  nodup : (c.bindings.map Prod.fst).Nodup
  constants : ∀ b ∈ c.bindings, b.2.IsConstant
  callee : ∃ p formals, outer.list? = some (p :: c.bindings.map Prod.snd) ∧
    p.formals? = some formals ∧ formals.Symbols (c.bindings.map Prod.fst) ∧
    p.body? = some body ∧ p.home? = c.home

/-- The first expression calls the first of the closures, the body of each closure calls the next
one, and the body of the last one is the second expression. -/
inductive Chained : List Call → Value → Value → Prop
  | nil (e : Value) : Chained [] e e
  | cons {c : Call} {cs : List Call} {outer body e : Value} :
    c.Around outer body → Chained cs body e → Chained (c :: cs) outer e

/-- The state in the body of the closure, called from frame `i`. -/
def enter (c : Call) (i : FrameId) (σ : State) : State :=
  σ.push ⟨some (c.home.getD i), c.bindings⟩

/-- The frame and the state behind all the calls, the first of which is made from frame `i`. -/
def enterAll : List Call → FrameId → State → FrameId × State
  | [], i, σ => (i, σ)
  | c :: cs, i, σ => enterAll cs σ.frames.size (c.enter i σ)

/-- What the name means in the middle of the calls, of which the innermost is the first one and
the outermost is made from frame `i`. -/
def meaning (fs : Frames) (i : FrameId) (name : String) : List Call → Option Value
  | [] => fs.lookup name i
  | c :: outer =>
    match c.bindings.lookup name with
    | some v => some v
    | none =>
      match c.home with
      | some home => fs.lookup name home
      | none => meaning fs i name outer

/-- The frames that the closures were made in are there. -/
def Housed (cs : List Call) (n : Nat) : Prop :=
  ∀ c ∈ cs, ∀ home, c.home = some home → home < n

variable {σ : State} {i : FrameId} {name : String}

theorem parent_lt {c : Call} {n : Nat} (hhome : ∀ home, c.home = some home → home < n)
    (hi : i < n) : c.home.getD i < n := by
  cases hc : c.home with
  | none => exact hi
  | some home => exact hhome home hc

/-- To the calls inside of it, a call that has been made is the last one to ask. -/
theorem meaning_push {c : Call} {inner : List Call} (hinner : Housed inner σ.frames.size)
    (hhome : ∀ home, c.home = some home → home < σ.frames.size) (hi : i < σ.frames.size) :
    meaning (c.enter i σ).frames σ.frames.size name inner =
      meaning σ.frames i name (inner ++ [c]) := by
  induction inner with
  | nil =>
      have hparent : c.home.getD i < σ.frames.size := parent_lt hhome hi
      rw [List.nil_append, meaning, meaning, enter]
      refine (Frames.lookup_push_size hparent c.bindings).trans ?_
      cases c.bindings.lookup name with
      | some v => rfl
      | none => cases c.home <;> rfl
  | cons d inner ih =>
      obtain ⟨hd, hinner⟩ := List.forall_mem_cons.mp hinner
      rw [List.cons_append, meaning, meaning, ih hinner]
      cases hhome : d.home with
      | none => rfl
      | some home =>
          have hlookup : (c.enter i σ).frames.lookup name home = σ.frames.lookup name home :=
            Frames.lookup_push_of_lt _ (hd home hhome)
          simp only [hlookup]

/-- Behind all the calls, a name means what it means in the middle of them. -/
theorem lookup_enterAll {cs : List Call} (hcs : Housed cs σ.frames.size)
    (hi : i < σ.frames.size) :
    (enterAll cs i σ).2.frames.lookup name (enterAll cs i σ).1 =
      meaning σ.frames i name cs.reverse := by
  induction cs generalizing i σ with
  | nil => rfl
  | cons c cs ih =>
      obtain ⟨hc, hcs⟩ := List.forall_mem_cons.mp hcs
      have hnew : σ.frames.size < (c.enter i σ).frames.size := by
        rw [enter, State.push, Frames.size_push]
        exact Nat.lt_succ_self _
      have hcs' : Housed cs (c.enter i σ).frames.size := fun d hd home hhome =>
        Nat.lt_trans (hcs d hd home hhome) hnew
      have hreverse : Housed cs.reverse σ.frames.size := fun d hd =>
        hcs d (List.mem_reverse.mp hd)
      rw [enterAll, ih hcs' hnew, meaning_push hreverse hc hi, List.reverse_cons]

/-! ## Evaluating chains -/

/-- A step on a call leaves the body, in the new frame. -/
theorem Around.step_eq {c : Call} {outer body : Value} (h : c.Around outer body)
    {eval : Evaluation} (heval : eval.TakesSteps) (i : FrameId) (σ : State) :
    Eval.step eval outer i σ = .value (.eval body σ.frames.size) (c.enter i σ) := by
  obtain ⟨p, formals, houter, hformals, hsymbols, hbody, hhome⟩ := h.callee
  have hsymbol : p.symbol? = none := by cases p <;> first | rfl | cases hformals
  have hcar : p.car? = none := by cases p <;> first | rfl | cases hformals
  have hcallee : eval p i σ = .value p σ := by
    rw [heval.keepsConstants p i ⟨hsymbol, hcar⟩]
    rfl
  rw [Eval.step_call_constants heval.keepsConstants houter hsymbol hcallee hformals hbody hsymbols
    h.nodup h.constants, hhome]
  rfl

end Call

namespace Eval

variable {s : Settings} {level : Nat} {i j : FrameId} {σ τ : State}

/-- By how many levels what a step leaves is deeper than what the step was on. -/
def tailCost : Strategy → Nat
  | .tailCall => 0
  | .recursive => 1

/-- If a step leaves an expression, with whatever budget from some on, then the evaluation goes on
with it. -/
theorem ends_iff_of_leaves {outer e : Value} (least : Nat) (hlevel : level < s.limit)
    (hstep : ∀ budget,
      step (nested s (budget + least) (level + 1)) outer i σ = .value (.eval e j) τ)
    (r : Ending Value) :
    Ends s level outer i σ r ↔ Ends s (level + tailCost s.strategy) e j τ r := by
  have honward : ∀ budget, nested s (budget + least + 1) level outer i σ =
      nested s (budget + least) (level + tailCost s.strategy) e j τ := by
    intro budget
    rw [nested_of_lt hlevel, run_succ, hstep budget]
    obtain ⟨strategy, limit⟩ := s
    cases strategy with
    | tailCall =>
        show run _ (budget + least) (level + 1) e j τ = nested _ (budget + least) level e j τ
        rw [nested_of_lt hlevel]
    | recursive => rfl
  constructor
  · rintro ⟨hne, budget, hr⟩
    have hmore := nested_stable hr hne (show budget ≤ budget + least + 1 by omega)
    rw [honward] at hmore
    exact ⟨hne, budget + least, hmore⟩
  · rintro ⟨hne, budget, hr⟩
    have hmore := nested_stable hr hne (Nat.le_add_right budget least)
    rw [← honward] at hmore
    exact ⟨hne, budget + least + 1, hmore⟩

/-- If steps leave an expression whatever the evaluation of the parts, as long as it takes what a
single step ends, then an evaluation goes on with this expression. -/
theorem ends_iff_of_step {outer e : Value}
    (hstep : ∀ eval : Evaluation, eval.TakesSteps → step eval outer i σ = .value (.eval e j) τ)
    (hroom : level + 1 < s.limit) (r : Ending Value) :
    Ends s level outer i σ r ↔ Ends s (level + tailCost s.strategy) e j τ r :=
  ends_iff_of_leaves 1 (Nat.lt_of_succ_lt hroom)
    (fun budget => hstep _ (nested_takesSteps hroom budget)) r

/-- The outcome of a name: its meaning, or that it has none. -/
def named (name : String) (span : Span) (σ : State) : Option Value → Ending Value
  | some v => .value v σ
  | none => .error (.unbound name span) σ

theorem symbol_ends_iff (hlevel : level < s.limit) (name : String) (span : Span)
    (r : Ending Value) :
    Ends s level (.symbol name span) i σ r ↔ r = named name span σ (σ.frames.lookup name i) := by
  refine Ends.iff_eq ⟨?_, 1, ?_⟩
  · cases σ.frames.lookup name i <;> simp [named]
  · rw [nested_of_lt hlevel, run_eq_bind, step]
    simp only [Action.bind_apply, Action.lookup]
    cases σ.frames.lookup name i <;> rfl

/-- The levels that a chain of `n` calls takes below the one that it is evaluated at. -/
def chainDepth (n : Nat) : Strategy → Nat
  | .tailCall => 1
  | .recursive => n

open Call in
theorem chained_ends_iff {cs : List Call} {outer e : Value} (h : Chained cs outer e)
    (hroom : level + chainDepth cs.length s.strategy < s.limit) (r : Ending Value) :
    Ends s level outer i σ r ↔
      Ends s (level + cs.length * tailCost s.strategy) e (enterAll cs i σ).1 (enterAll cs i σ).2
        r := by
  induction h generalizing level i σ with
  | nil e => rw [List.length_nil, Nat.zero_mul, Nat.add_zero]; rfl
  | @cons c cs outer body e hc _ ih =>
      have hnext : level + 1 < s.limit ∧
          level + tailCost s.strategy + chainDepth cs.length s.strategy < s.limit := by
        rw [List.length_cons] at hroom
        revert hroom
        cases s.strategy <;> simp only [chainDepth, tailCost] <;> omega
      have hdepth : level + tailCost s.strategy + cs.length * tailCost s.strategy =
          level + (c :: cs).length * tailCost s.strategy := by
        rw [List.length_cons, Nat.succ_mul]
        omega
      rw [ends_iff_of_step (fun eval heval => hc.step_eq heval i σ) hnext.1, ih hnext.2, hdepth]
      rfl

end Eval

open Call in
/-- Closures call one another, with constants for arguments, down to a name. Where the limit
leaves the levels that this takes, the evaluation of the first call comes to what the calls say
that the name means, from the innermost on: the argument of the first one that has the name for
a formal, unless a `lambda` comes before it, which says what the name means where it was made; and
if no call tells, the name means what it means to the outermost caller. -/
theorem call_chain_ends_iff {cs : List Call} {e : Value} {name : String} {span : Span}
    (h : Chained cs e (.symbol name span)) {i : FrameId} {σ : State} (hi : i < σ.frames.size)
    (hcs : Housed cs σ.frames.size) {s : Settings} {level : Nat}
    (hroom : level + Eval.chainDepth cs.length s.strategy < s.limit) (r : Ending Value) :
    Eval.Ends s level e i σ r ↔
      r = Eval.named name span (enterAll cs i σ).2 (meaning σ.frames i name cs.reverse) := by
  have hlevel : level + cs.length * Eval.tailCost s.strategy < s.limit := by
    revert hroom
    cases s.strategy <;> simp only [Eval.chainDepth, Eval.tailCost] <;> omega
  rw [Eval.chained_ends_iff h hroom, Eval.symbol_ends_iff hlevel, lookup_enterAll hcs hi]

section

/-- `(mu (y) x)` -/
def relay : Value :=
  .mu (.made 1) (.ofList [.symbol "y" .none]) (.symbol "x" .none) .none

/-- `(lambda (x) (relay "b"))`, made in the global frame. -/
def relayed : Value :=
  .lambda (.made 0) (.ofList [.symbol "x" .none]) (.ofList [relay, .string "b" .none])
    Session.root .none

/-- `((mu (x z) (relayed "a")) "c" "d")` -/
def callRelayed : Value :=
  .ofList [.mu (.made 2) (.ofList [.symbol "x" .none, .symbol "z" .none])
    (.ofList [relayed, .string "a" .none]) .none, .string "c" .none, .string "d" .none]

def relayedCalls : List Call :=
  [⟨none, [("x", .string "c" .none), ("z", .string "d" .none)]⟩,
    ⟨some Session.root, [("x", .string "a" .none)]⟩, ⟨none, [("y", .string "b" .none)]⟩]

theorem callRelayed_chained : Call.Chained relayedCalls callRelayed (.symbol "x" .none) := by
  refine .cons ⟨by decide, ?_, _, _, rfl, rfl, .cons _ _ _ _ (.cons _ _ _ _ (.nil _)), rfl, rfl⟩ <|
    .cons ⟨by decide, ?_, _, _, rfl, rfl, .cons _ _ _ _ (.nil _), rfl, rfl⟩ <|
    .cons ⟨by decide, ?_, _, _, rfl, rfl, .cons _ _ _ _ (.nil _), rfl, rfl⟩ <| .nil _
  · exact List.forall_mem_cons.mpr ⟨⟨rfl, rfl⟩, List.forall_mem_singleton.mpr ⟨rfl, rfl⟩⟩
  · exact List.forall_mem_singleton.mpr ⟨rfl, rfl⟩
  · exact List.forall_mem_singleton.mpr ⟨rfl, rfl⟩

theorem relayedCalls_housed : Call.Housed relayedCalls 1 := by
  unfold Call.Housed relayedCalls
  decide

/-- Of the two calls that bind `x`, the inner one counts, which the `mu` inside of it sees. -/
theorem call_chain_ends_iff_relayed :
    let σ := Session.start fun _ => .error .notFound
    let τ := ((σ.push ⟨some 0, [("x", .string "c" .none), ("z", .string "d" .none)]⟩).push
      ⟨some 0, [("x", .string "a" .none)]⟩).push ⟨some 2, [("y", .string "b" .none)]⟩
    Call.Chained relayedCalls callRelayed (.symbol "x" .none) ∧
      (∀ r, Eval.Ends ⟨.recursive, 4⟩ 0 callRelayed 0 σ r ↔ r = .value (.string "a" .none) τ) ∧
      ∀ r, Eval.Ends ⟨.tailCall, 2⟩ 0 callRelayed 0 σ r ↔ r = .value (.string "a" .none) τ := by
  intro σ τ
  have hhoused : Call.Housed relayedCalls σ.frames.size := relayedCalls_housed
  have h {s : Settings} (hroom : 0 + Eval.chainDepth 3 s.strategy < s.limit) (r : Ending Value) :
      Eval.Ends s 0 callRelayed 0 σ r ↔ r = .value (.string "a" .none) τ :=
    call_chain_ends_iff callRelayed_chained Nat.zero_lt_one hhoused hroom r
  exact ⟨callRelayed_chained, h (by decide), h (by decide)⟩

end

end DualScope
