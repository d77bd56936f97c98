import DualScope.Proofs.Grammar

/-!
# Where reading fails

Tokens can be *viable*: something could follow them with which they would be read. Of tokens
that cannot be read as they stand the reader says that they are unfinished if they are viable,
and otherwise names a fault that nothing behind it could mend; and the token that it did not
expect is the first one with which the tokens so far are no longer viable.

The argument does not look at what is read. A reader goes over the tokens as a machine, and it
needs three things: every state leads to an end on some tokens, a token is refused only as
unexpected or for a dot, and only the end of the tokens is unfinished. Both ways to read tokens,
as one expression and as many, are such machines. That every state leads to an end is the one
fact about forms: a form that waits for a value takes any, and a bracket that is open can be
closed.
-/

namespace DualScope

/-! ## Answers of a reader -/

section

variable {α : Type} (read : List Token → Except ReadError α)

/-- The tokens are read. -/
def Accepted (ts : List Token) : Prop :=
  ∃ a, read ts = .ok a

/-- The tokens are read with some others behind them, or as they stand. -/
def Viable (ts : List Token) : Prop :=
  ∃ us, Accepted read (ts ++ us)

/-- Of the tokens `t` is the first with which those up to it are not viable. -/
def FirstFault (ts : List Token) (t : Token) : Prop :=
  ∃ before after, ts = before ++ t :: after ∧
    (∀ us, us <+: before → Viable read us) ∧ ¬ Viable read (before ++ [t])

/-- The answer to the tokens tells whether they are viable: unfinished tokens can be finished,
and behind a fault all is lost. -/
def Judges (ts : List Token) : Prop :=
  match read ts with
  | .ok _ => True
  | .error (.unfinished _) => ∃ us, us ≠ [] ∧ Accepted read (ts ++ us)
  | .error (.unexpected t _) => ¬ Viable read ts ∧ FirstFault read ts t
  | .error (.misplacedDot _) => ¬ Viable read ts
  | .error (.lexical _) => False

variable {read}

theorem Viable.of_append {ts us : List Token} (h : Viable read (ts ++ us)) : Viable read ts := by
  obtain ⟨more, a, ha⟩ := h
  rw [List.append_assoc] at ha
  exact ⟨us ++ more, a, ha⟩

end

/-! ## Reading by machines -/

/-- A reader that takes one token at a time. -/
structure Machine (σ α : Type) where
  step : σ → Token → Except ReadError σ
  /-- The answer where the tokens end. -/
  stop : σ → Except ReadError α

namespace Machine

variable {σ α : Type} (M : Machine σ α)

/-- The state behind the tokens. -/
def after (s : σ) (ts : List Token) : Except ReadError σ :=
  ts.foldlM M.step s

def run (s : σ) (ts : List Token) : Except ReadError α :=
  M.after s ts >>= M.stop

/-- What a machine must be like to judge. -/
structure Sound : Prop where
  completable : ∀ s, ∃ us a, M.run s us = .ok a
  step_error : ∀ {s t e}, M.step s t = .error e →
    (∃ wanted, e = .unexpected t wanted) ∨ ∃ dot, e = .misplacedDot dot
  stop_error : ∀ {s e}, M.stop s = .error e → ∃ wanted, e = .unfinished wanted

variable {M}

theorem after_nil (s : σ) : M.after s [] = .ok s := rfl

theorem after_cons (s : σ) (t : Token) (ts : List Token) :
    M.after s (t :: ts) = M.step s t >>= fun s' => M.after s' ts := by
  rw [after, List.foldlM_cons]
  rfl

theorem after_append (s : σ) (ts us : List Token) :
    M.after s (ts ++ us) = M.after s ts >>= fun s' => M.after s' us :=
  List.foldlM_append

theorem after_singleton (s : σ) (t : Token) : M.after s [t] = M.step s t := by
  rw [after_cons]
  cases M.step s t <;> rfl

theorem exists_after_of_append {s s' : σ} {ts us : List Token}
    (h : M.after s (ts ++ us) = .ok s') : ∃ s₁, M.after s ts = .ok s₁ ∧ M.after s₁ us = .ok s' := by
  rw [after_append] at h
  cases hts : M.after s ts with
  | error e =>
      rw [hts] at h
      cases h
  | ok s₁ =>
      rw [hts] at h
      exact ⟨s₁, rfl, h⟩

theorem run_append {s s' : σ} {ts : List Token} (h : M.after s ts = .ok s') (us : List Token) :
    M.run s (ts ++ us) = M.run s' us := by
  rw [run, after_append, h]
  rfl

theorem run_of_after {s s' : σ} {ts : List Token} (h : M.after s ts = .ok s') :
    M.run s ts = M.stop s' := by
  rw [run, h]
  rfl

theorem run_of_step_error {s : σ} {t : Token} {e : ReadError} (h : M.step s t = .error e)
    (ts : List Token) : M.run s (t :: ts) = .error e := by
  rw [run, after_cons, h]
  rfl

theorem exists_after_of_ok {s : σ} {ts : List Token} {a : α} (h : M.run s ts = .ok a) :
    ∃ s', M.after s ts = .ok s' ∧ M.stop s' = .ok a := by
  cases hts : M.after s ts with
  | ok s' => exact ⟨s', rfl, (run_of_after hts).symm.trans h⟩
  | error e =>
      rw [run, hts] at h
      cases h

/-- A machine that does not come to the end of the tokens refuses one of them. -/
theorem exists_fault {s : σ} {ts : List Token} {e : ReadError} (h : M.after s ts = .error e) :
    ∃ before t rest s', ts = before ++ t :: rest ∧ M.after s before = .ok s' ∧
      M.step s' t = .error e := by
  induction ts generalizing s with
  | nil => cases h
  | cons t ts ih =>
      rw [after_cons] at h
      cases hstep : M.step s t with
      | error e' =>
          rw [hstep] at h
          cases h
          exact ⟨[], t, ts, s, rfl, rfl, hstep⟩
      | ok s₁ =>
          rw [hstep] at h
          obtain ⟨before, u, rest, s', rfl, hbefore, hu⟩ := ih h
          refine ⟨t :: before, u, rest, s', rfl, ?_, hu⟩
          rw [after_cons, hstep]
          exact hbefore

theorem Sound.viable (h : M.Sound) {s s' : σ} {ts : List Token} (hts : M.after s ts = .ok s') :
    Viable (M.run s) ts := by
  obtain ⟨us, a, hus⟩ := h.completable s'
  exact ⟨us, a, by rw [run_append hts, hus]⟩

theorem not_viable_of_step_error {s s' : σ} {before : List Token} {t : Token} {e : ReadError}
    (hbefore : M.after s before = .ok s') (ht : M.step s' t = .error e) (rest : List Token) :
    ¬ Viable (M.run s) (before ++ t :: rest) := by
  rintro ⟨us, a, ha⟩
  rw [List.append_assoc, run_append hbefore, List.cons_append, run_of_step_error ht] at ha
  cases ha

theorem Sound.exists_after_of_unfinished (h : M.Sound) {s : σ} {ts : List Token} {wanted : Wanted}
    (hrun : M.run s ts = .error (.unfinished wanted)) :
    ∃ s', M.after s ts = .ok s' ∧ M.stop s' = .error (.unfinished wanted) := by
  cases hts : M.after s ts with
  | ok s' => exact ⟨s', rfl, (run_of_after hts).symm.trans hrun⟩
  | error e =>
      obtain ⟨before, t, rest, s', rfl, hbefore, ht⟩ := exists_fault hts
      rw [run_append hbefore, run_of_step_error ht] at hrun
      cases hrun
      rcases h.step_error ht with ⟨_, heq⟩ | ⟨_, heq⟩ <;> cases heq

theorem Sound.judges (h : M.Sound) (s : σ) (ts : List Token) : Judges (M.run s) ts := by
  unfold Judges
  cases hts : M.after s ts with
  | ok s' =>
      rw [run_of_after hts]
      cases hstop : M.stop s' with
      | ok a => trivial
      | error e =>
          obtain ⟨wanted, rfl⟩ := h.stop_error hstop
          obtain ⟨us, a, hus⟩ := h.completable s'
          refine ⟨us, ?_, a, by rw [run_append hts, hus]⟩
          rintro rfl
          rw [run_of_after (after_nil s'), hstop] at hus
          cases hus
  | error e =>
      obtain ⟨before, t, rest, s', rfl, hbefore, ht⟩ := exists_fault hts
      have hlost := not_viable_of_step_error hbefore ht
      rw [run_append hbefore, run_of_step_error ht]
      rcases h.step_error ht with ⟨wanted, rfl⟩ | ⟨dot, rfl⟩
      · refine ⟨hlost rest, before, rest, rfl, ?_, hlost []⟩
        rintro us ⟨more, rfl⟩
        exact (h.viable hbefore).of_append
      · exact hlost rest

end Machine

/-! ## The machines of the reader -/

namespace Reader

theorem feed_error {r : Reading} {t : Token} {e : ReadError} (h : feed r t = .error e) :
    (∃ wanted, e = .unexpected t wanted) ∨ ∃ dot, e = .misplacedDot dot := by
  unfold feed at h
  split at h <;> cases h
  all_goals first
    | exact .inl ⟨_, rfl⟩
    | exact .inr ⟨_, rfl⟩

/-- Closing brackets finish whatever forms wait for a value. -/
theorem exists_finish_deliver (v : Value) (forms : List Open) :
    ∃ us w, (deliver v forms).finish us = .ok (w, []) := by
  induction forms generalizing v with
  | nil => exact ⟨[], v, rfl⟩
  | cons o forms ih =>
      cases o with
      | quote mark => exact ih (quotation mark v)
      | list bracket items =>
          obtain ⟨us, w, h⟩ := ih (closeList bracket (v :: items) (.nil .none) .none)
          exact ⟨⟨.closeParen, .none⟩ :: us, w, (finish_of_feed rfl us).trans h⟩
      | dotted bracket items dot =>
          obtain ⟨us, w, h⟩ := ih (closeList bracket items v .none)
          exact ⟨⟨.closeParen, .none⟩ :: us, w, (finish_of_feed rfl us).trans h⟩

/-- Wherever the reader is in an expression, the expression can be finished. -/
theorem exists_finish (r : Reading) : ∃ us w, us ≠ [] ∧ finish r us = .ok (w, []) := by
  cases r with
  | expecting forms =>
      obtain ⟨us, w, h⟩ := exists_finish_deliver (.boolean true .none) forms
      refine ⟨⟨.boolean true, .none⟩ :: us, w, List.cons_ne_nil _ _, ?_⟩
      rw [finish_of_feed (feed_atom rfl forms), h]
  | closing bracket items tail forms =>
      obtain ⟨us, w, h⟩ := exists_finish_deliver (closeList bracket items tail .none) forms
      refine ⟨⟨.closeParen, .none⟩ :: us, w, List.cons_ne_nil _ _, ?_⟩
      rw [finish_of_feed rfl, h]

/-- Reads expressions until the tokens end; those found so far are kept last first. -/
def manyMachine : Machine (List Value × Reading) (List Value) where
  step s t :=
    match feed s.2 t with
    | .error e => .error e
    | .ok (.complete v) => .ok (v :: s.1, start)
    | .ok (.reading r) => .ok (s.1, r)
  stop s := if s.2 = start then .ok s.1.reverse else .error (.unfinished s.2.wanted)

/-- Reads one expression, behind which the tokens end. -/
def oneMachine : Machine Progress Value where
  step
    | .complete _, t => .error (.unexpected t .nothing)
    | .reading r, t => feed r t
  stop
    | .complete v => .ok v
    | .reading r => .error (.unfinished r.wanted)

theorem run_manyMachine (before : List Value) (r : Reading) (ts : List Token) :
    manyMachine.run (before, r) ts =
      match collect before r ts with
      | (vs, none) => .ok vs
      | (_, some e) => .error e := by
  induction ts generalizing before r with
  | nil =>
      rw [Machine.run_of_after (Machine.after_nil _), collect]
      simp only [manyMachine]
      split <;> rfl
  | cons t ts ih =>
      rw [Machine.run, Machine.after_cons, collect]
      simp only [manyMachine]
      cases feed r t with
      | error e => rfl
      | ok next =>
          cases next with
          | complete v => exact ih (v :: before) start
          | reading r' => exact ih before r'

theorem program_eq_run : program = manyMachine.run ([], start) := by
  funext ts
  rw [run_manyMachine]
  rfl

theorem run_oneMachine (r : Reading) (ts : List Token) :
    oneMachine.run (.reading r) ts =
      match finish r ts with
      | .error e => .error e
      | .ok (v, []) => .ok v
      | .ok (_, t :: _) => .error (.unexpected t .nothing) := by
  induction ts generalizing r with
  | nil => rfl
  | cons t ts ih =>
      rw [Machine.run, Machine.after_cons, finish]
      simp only [oneMachine]
      cases feed r t with
      | error e => rfl
      | ok next =>
          cases next with
          | complete v =>
              cases ts with
              | nil => rfl
              | cons u us =>
                  have hrefused : oneMachine.step (.complete v) u =
                      .error (.unexpected u .nothing) := rfl
                  exact Machine.run_of_step_error hrefused us
          | reading r' => exact ih r'

theorem single_eq_run : single = oneMachine.run (.reading start) := by
  funext ts
  rw [run_oneMachine]
  rfl

theorem manyMachine_sound : manyMachine.Sound where
  completable := by
    rintro ⟨before, r⟩
    obtain ⟨us, w, hne, h⟩ := exists_finish r
    refine ⟨us, (w :: before).reverse, ?_⟩
    rw [run_manyMachine, collect_eq fun _ => hne, h]
    rfl
  step_error := by
    intro s t e h
    simp only [manyMachine] at h
    split at h <;> cases h
    next hfeed => exact feed_error hfeed
  stop_error := by
    intro s e h
    simp only [manyMachine] at h
    split at h <;> cases h
    exact ⟨_, rfl⟩

theorem oneMachine_sound : oneMachine.Sound where
  completable
    | .complete v => ⟨[], v, rfl⟩
    | .reading r => by
      obtain ⟨us, w, _, h⟩ := exists_finish r
      refine ⟨us, w, ?_⟩
      rw [run_oneMachine, h]
  step_error := by
    intro s t e h
    cases s with
    | complete v =>
        cases h
        exact .inl ⟨_, rfl⟩
    | reading r => exact feed_error h
  stop_error := by
    intro s e h
    cases s with
    | complete v => cases h
    | reading r =>
        cases h
        exact ⟨_, rfl⟩

end Reader

/-- Whether tokens are read as many expressions or as one: they are read, or they are said to be
unfinished and others behind them would finish them, or a fault is named and nothing behind them
would help; and an unexpected token is the first one that spoils them. -/
theorem reader_judges (ts : List Token) : Judges Reader.program ts ∧ Judges Reader.single ts := by
  rw [Reader.program_eq_run, Reader.single_eq_run]
  exact ⟨Reader.manyMachine_sound.judges _ ts, Reader.oneMachine_sound.judges _ ts⟩

/-- In `(x ' ) y` the bracket is the fault, and `(x '` lacks an expression. -/
example :
    Reader.program [⟨.openParen, ⟨0, 1⟩⟩, ⟨.symbol "x", ⟨1, 2⟩⟩, ⟨.quote, ⟨3, 4⟩⟩,
        ⟨.closeParen, ⟨5, 6⟩⟩, ⟨.symbol "y", ⟨7, 8⟩⟩] =
      .error (.unexpected ⟨.closeParen, ⟨5, 6⟩⟩ .expression) ∧
    Reader.program [⟨.openParen, ⟨0, 1⟩⟩, ⟨.symbol "x", ⟨1, 2⟩⟩, ⟨.quote, ⟨3, 4⟩⟩] =
      .error (.unfinished .expression) :=
  ⟨rfl, rfl⟩

end DualScope
