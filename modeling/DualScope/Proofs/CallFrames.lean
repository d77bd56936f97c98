import DualScope.Proofs.Heap

/-!
# The frames of calls

A call walks over the formals and the arguments side by side and binds as it goes. What it
does is plain as long as the formals are a proper list of symbols that differ from one
another, and nothing but the check that a closure is made with sees to that. Since all
closures of a session have passed it, a call binds the formals, each to the argument at its
place, or there are too many or too few arguments, or they are no list. In no case does it
find that something cannot be bound.
-/

namespace DualScope

/-! ## Formals -/

/-- The value is a proper list of symbols with these names. -/
inductive Value.Symbols : Value → List String → Prop
  | nil (span : Span) : Symbols (.nil span) []
  | cons (id : Identity) (name : String) (nspan span : Span) {rest : Value} {names : List String} :
    Symbols rest names → Symbols (.pair id (.symbol name nspan) rest span) (name :: names)

namespace Form

/-- Formals that pass their check are symbols, all different from one another and from those
seen before. -/
theorem symbols_of_checkFormalsAfter {seen : List String} {formals : Value}
    (h : checkFormalsAfter seen formals = .ok ()) :
    ∃ names, formals.Symbols names ∧ names.Nodup ∧ ∀ name ∈ names, name ∉ seen := by
  fun_induction checkFormalsAfter seen formals with
  | case1 seen span => exact ⟨[], .nil span, List.nodup_nil, fun _ h => by cases h⟩
  | case2 => cases h
  | case3 seen id name nspan rest span hname ih =>
      obtain ⟨names, hsymbols, hnodup, hfresh⟩ := ih h
      refine ⟨name :: names, .cons id name nspan span hsymbols, ?_, ?_⟩
      · exact List.nodup_cons.mpr ⟨fun hn => hfresh name hn List.mem_cons_self, hnodup⟩
      · refine List.forall_mem_cons.mpr ⟨hname, fun n hn hseen => ?_⟩
        exact hfresh n hn (List.mem_cons_of_mem name hseen)
  | case4 => cases h
  | case5 => cases h

theorem symbols_of_checkFormals {formals : Value} (h : checkFormals formals = .ok ()) :
    ∃ names, formals.Symbols names ∧ names.Nodup := by
  obtain ⟨names, hsymbols, hnodup, _⟩ := symbols_of_checkFormalsAfter h
  exact ⟨names, hsymbols, hnodup⟩

end Form

theorem Value.Symbols.length_elements {formals : Value} {names : List String}
    (h : formals.Symbols names) : formals.elements.length = names.length := by
  induction h with
  | nil span => rfl
  | cons id name nspan span _ ih =>
      rw [Value.elements_pair, List.length_cons, List.length_cons, ih]

/-! ## Bindings -/

/-- A name that is not bound yet is bound behind all others. -/
theorem Frame.insert_of_fresh {name : String} {bs : List (String × Value)}
    (h : name ∉ bs.map Prod.fst) (v : Value) : insert name v bs = bs ++ [(name, v)] := by
  induction bs with
  | nil => rfl
  | cons b bs ih =>
      obtain ⟨n, w⟩ := b
      have hne : n ≠ name := fun heq => h (heq ▸ List.mem_cons_self)
      rw [insert, if_neg hne, ih fun hn => h (List.mem_cons_of_mem n hn), List.cons_append]

theorem Value.length?_pair (id : Identity) (car cdr : Value) (span : Span) :
    (Value.pair id car cdr span).length? = cdr.length?.map (· + 1) := by
  have hproper : (Value.pair id car cdr span).isProper = cdr.isProper := rfl
  rw [length?, length?, list?, list?, hproper, elements_pair]
  cases cdr.isProper <;> rfl

/-- The walk over formals and arguments binds each name to the argument at its place, or it
comes to the end of one of the two before that of the other. -/
theorem matchFormals_eq {formals : Value} {names : List String} (h : formals.Symbols names)
    {made : List (String × Value)} (hmade : (made.map Prod.fst ++ names).Nodup) (args : Value) :
    matchFormals made formals args =
      .ok (if args.length? = some names.length then some (made ++ names.zip args.elements)
        else none) := by
  -- The names made and those to come are different all along, so that each one is bound behind
  -- the ones before.
  induction h generalizing made args with
  | nil span =>
      cases args with
      | nil span' => exact congrArg (Except.ok ∘ some) (List.append_nil made).symm
      | pair id car cdr span' =>
          rw [Value.length?_pair, if_neg (by simp)]
          rfl
      | _ => rfl
  | @cons id name nspan span rest names _ ih =>
      cases args with
      | pair id' v args span' =>
          have hfresh : name ∉ made.map Prod.fst := fun hn =>
            (List.nodup_append.mp hmade).2.2 name hn name List.mem_cons_self rfl
          have hmade' : ((made ++ [(name, v)]).map Prod.fst ++ names).Nodup := by
            rwa [List.map_append, List.append_assoc]
          rw [matchFormals, Frame.insert_of_fresh hfresh, ih hmade', Value.length?_pair,
            Value.elements_pair, List.append_assoc]
          cases args.length? <;> simp
      | _ => rfl

/-- From formals that are symbols and all different, a call makes bindings of just these names,
or it says how many arguments it found. -/
theorem callBindings_eq {formals : Value} {names : List String} (h : formals.Symbols names)
    (hnodup : names.Nodup) (args : Value) (span : Span) :
    callBindings formals args span =
      if args.length? = some names.length then .ok (names.zip args.elements)
      else .error (.argumentCount names.length args.elements.length span) := by
  have hmade : (([] : List (String × Value)).map Prod.fst ++ names).Nodup := hnodup
  have hmatch := matchFormals_eq h hmade args
  rw [callBindings, hmatch, h.length_elements]
  split <;> simp_all

/-! ## Calls of closures -/

/-- The body of a closure. -/
def Value.body? : Value → Option Value
  | .lambda _ _ body _ _ | .mu _ _ body _ => some body
  | _ => none

theorem Value.parts_of_mem_closures {v p : Value} (h : p ∈ v.closures) :
    ∃ formals body, p.formals? = some formals ∧ p.body? = some body := by
  induction v with
  | pair id car cdr span ihcar ihcdr => exact (List.mem_append.mp h).elim ihcar ihcdr
  | lambda id formals body home span ihf ihb =>
      rcases List.mem_cons.mp h with rfl | h
      · exact ⟨formals, body, rfl, rfl⟩
      · exact (List.mem_append.mp h).elim ihf ihb
  | mu id formals body span ihf ihb =>
      rcases List.mem_cons.mp h with rfl | h
      · exact ⟨formals, body, rfl, rfl⟩
      · exact (List.mem_append.mp h).elim ihf ihb
  | _ => cases h

/-- A call of a closure makes a frame below the one that the closure was made in, or, if it was
made in none, below that of the caller. -/
theorem Eval.apply_closure {p formals body : Value} (hf : p.formals? = some formals)
    (hb : p.body? = some body) (eval : Evaluation) (i : FrameId) (args : Value) (span : Span) :
    Eval.apply eval i args p span = do
      return .eval body (← Action.callFrame (p.home?.getD i) formals args span) := by
  cases p with
  | lambda id formals' body' home lspan =>
      cases hf
      cases hb
      rw [Eval.apply.eq_4]
      rfl
  | mu id formals' body' mspan =>
      cases hf
      cases hb
      rw [Eval.apply.eq_5]
      rfl
  | _ => cases hf

section

variable {p formals body : Value} {names : List String}

/-- The body is left to be evaluated in a new frame that binds each name to the argument at its
place, or nothing has changed. -/
theorem Eval.apply_eq (hf : p.formals? = some formals) (hb : p.body? = some body)
    (hsymbols : formals.Symbols names) (hnodup : names.Nodup) (eval : Evaluation) (i : FrameId)
    (args : Value) (span : Span) (σ : State) :
    Eval.apply eval i args p span σ =
      if args.length? = some names.length then
        .value (.eval body σ.frames.size)
          (σ.push ⟨some (p.home?.getD i), names.zip args.elements⟩)
      else .error (.argumentCount names.length args.elements.length span) σ := by
  rw [Eval.apply_closure hf hb, Action.callFrame, callBindings_eq hsymbols hnodup]
  split <;> rfl

theorem Session.apply_eq (hf : p.formals? = some formals) (hb : p.body? = some body)
    (hsymbols : formals.Symbols names) (hnodup : names.Nodup) (s : Settings) (budget : Nat)
    (i : FrameId) (args : Value) (σ : State) :
    Session.apply s budget i p args σ =
      if args.length? = some names.length then
        Session.eval s budget body σ.frames.size
          (σ.push ⟨some (p.home?.getD i), names.zip args.elements⟩)
      else .error (.argumentCount names.length args.elements.length p.span) σ := by
  rw [Session.apply, Action.bind_apply, Eval.apply_eq hf hb hsymbols hnodup]
  by_cases hargs : args.length? = some names.length
  · rw [if_pos hargs, if_pos hargs]
  · rw [if_neg hargs, if_neg hargs]

end

/-- The formals of the closure are a proper list of symbols with these names, no two of which
are the same. A call with a list of as many arguments leaves the body to be evaluated in a new
frame, which binds just these names, each to the argument at its place, and hangs below the
frame that the closure was made in or, if there is none, below that of the caller. A call with
anything else says how many arguments were wanted and found, and nothing has changed. No call
finds a formal that cannot be bound. -/
structure Value.BindsFormals (p : Value) (names : List String) (body : Value) : Prop where
  formals : ∃ formals, p.formals? = some formals ∧ formals.Symbols names ∧
    ∀ args span target, callBindings formals args span ≠ .error (.badTarget target)
  nodup : names.Nodup
  body_eq : p.body? = some body
  apply : ∀ eval i args span σ, Eval.apply eval i args p span σ =
    if args.length? = some names.length then
      .value (.eval body σ.frames.size) (σ.push ⟨some (p.home?.getD i), names.zip args.elements⟩)
    else .error (.argumentCount names.length args.elements.length span) σ
  call : ∀ s budget i args σ, Session.apply s budget i p args σ =
    if args.length? = some names.length then
      Session.eval s budget body σ.frames.size
        (σ.push ⟨some (p.home?.getD i), names.zip args.elements⟩)
    else .error (.argumentCount names.length args.elements.length p.span) σ

namespace Session

open Course

/-- Whatever closure a host can get hold of, in the course of a session: its calls bind its
formals and nothing else. -/
theorem calls_bind_formals {files : Files} {c : Course} {p : Value} (h : c.Reached files)
    (hp : c.Shows p) : ∃ names body, p.BindsFormals names body := by
  have hclosure : p.SoundClosure c.state.frames.size := (heap_holds h).closure id hp
  obtain ⟨v, _, hv⟩ := hp
  obtain ⟨formals, body, hf, hb⟩ := Value.parts_of_mem_closures hv
  obtain ⟨names, hsymbols, hnodup⟩ := Form.symbols_of_checkFormals (hclosure.formals formals hf)
  have hbindable : ∀ args span target,
      callBindings formals args span ≠ .error (.badTarget target) := by
    intro args span target
    rw [callBindings_eq hsymbols hnodup]
    split <;> simp
  exact ⟨names, body, ⟨formals, hf, hsymbols, hbindable⟩, hnodup, hb,
    Eval.apply_eq hf hb hsymbols hnodup, Session.apply_eq hf hb hsymbols hnodup⟩

section

/-- `((lambda (x) (mu (a b) x)) #t)` -/
def makePairing : Value :=
  .ofList [.ofList [.symbol "lambda" .none, .ofList [.symbol "x" .none],
    .ofList [.symbol "mu" .none, .ofList [.symbol "a" .none, .symbol "b" .none],
      .symbol "x" .none]], .boolean true .none]

/-- What `makePairing` comes to in a new session. -/
def pairing : Value :=
  .mu (.made 1) (.ofList [.symbol "a" .none, .symbol "b" .none]) (.symbol "x" .none) .none

def madePairing : Course where
  state := { (start fun _ => .error .notFound).push ⟨some root, [("x", .boolean true .none)]⟩ with
    made := 2 }
  held := [pairing]

theorem madePairing_reached : madePairing.Reached fun _ => .error .notFound :=
  .act ⟨.recursive, 2⟩ 4 (.eval root makePairing) .refl
    ⟨Nat.zero_lt_one, List.forall_mem_singleton.mpr
      (by simp [makePairing, Value.ofList, Value.Every])⟩ rfl

theorem calls_bind_formals_pairing :
    madePairing.Reached (fun _ => .error .notFound) ∧ madePairing.Shows pairing ∧
      ∃ names body, pairing.BindsFormals names body := by
  have hshows : madePairing.Shows pairing :=
    ⟨pairing, .inl List.mem_cons_self, List.mem_cons_self⟩
  exact ⟨madePairing_reached, hshows, calls_bind_formals madePairing_reached hshows⟩

end

end Session

end DualScope
