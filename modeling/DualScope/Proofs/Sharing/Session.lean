import DualScope.Proofs.Course
import DualScope.Proofs.Sharing.Calls

/-!
# What is the same in a session is equal

By induction on the budget, evaluation keeps a ledger, whatever it evaluates. So does a session,
as long as its host hands in what it got from the session, or makes data up and has it taken up as
if it were read. It may call a form itself, too. But what a form leaves to be run is no data: a
pair with `begin` that was put in front of a body has no identity to tell it from others. So of such
an expression a host keeps the parts, and it may have run whatever is made of parts that it got.

All values that the host can get hold of are recorded in one ledger then. If two of them are the
same, they are equal, or there is a NaN in them.
-/

namespace DualScope

namespace Eval

theorem shares_nested_of_run {s : Settings} {budget level : Nat}
    (hrun : (run s budget (level + 1)).Shares) : (nested s budget level).Shares := by
  by_cases hlevel : level < s.limit
  · rw [nested_of_lt hlevel]
    exact hrun
  · rw [nested_of_le (Nat.le_of_not_lt hlevel)]
    exact fun _ _ _ _ => .fail _

theorem shares_run (s : Settings) (budget level : Nat) : (run s budget level).Shares := by
  -- A step may evaluate one level deeper, with the smaller budget, and so may what it leaves.
  induction budget generalizing level with
  | zero => exact fun _ _ _ _ _ _ => trivial
  | succ budget ih =>
      intro κ e i he
      have hnested := shares_nested_of_run (ih (level + 1))
      rw [run_eq_bind]
      refine (shares_step hnested i he).bind fun κ₁ next _ hnext => ?_
      cases next with
      | done v => exact .pure hnext
      | eval e j =>
          unfold onward
          cases s.strategy with
          | tailCall => exact ih level κ₁ e j hnext
          | recursive => exact hnested κ₁ e j hnext

theorem shares_nested (s : Settings) (budget level : Nat) : (nested s budget level).Shares :=
  shares_nested_of_run (shares_run s budget (level + 1))

end Eval

namespace Session

open Action.Shares (pure)

variable {files : Files} {κ : Ledger}

theorem shares_apply (s : Settings) (budget : Nat) (i : FrameId) {callee args : Value}
    (hcallee : callee.Recorded κ) (hargs : ∀ v ∈ args.elements, v.Recorded κ) :
    (Session.apply s budget i callee args).Shares κ Value.Recorded := by
  have heval : (Session.eval s budget).Shares := Eval.shares_nested s budget 0
  refine (Eval.shares_apply heval i callee.span hargs hcallee).bind fun κ₁ next _ hnext => ?_
  cases next with
  | done v => exact pure hnext
  | eval e j => exact heval κ₁ e j hnext

theorem shares_enter {v : Value} (h : v.Every (Value.Recorded κ)) :
    (Session.enter v).Shares κ Value.Recorded := by
  intro σ hσ
  obtain ⟨κ', hκ, hfree, hv⟩ := Value.exists_recorded_stamp 0 hσ.free h
  exact ⟨κ', hκ, hσ.count hκ hfree.text_done, hv⟩

/-! ## Courses -/

namespace Course

/-- The value is one that the host got, a part of such a value, or neither a pair nor a closure. -/
inductive Gets (c : Course) : Value → Prop
  | known {v : Value} : c.Knows v → Gets c v
  | car {id : Identity} {car cdr : Value} {span : Span} :
    Gets c (.pair id car cdr span) → Gets c car
  | cdr {id : Identity} {car cdr : Value} {span : Span} :
    Gets c (.pair id car cdr span) → Gets c cdr
  | atom {v : Value} : v.car? = none → v.closures = [] → Gets c v

/-- The host can have the expression run: it got it, or it got both of its parts. -/
inductive Runs (c : Course) : Value → Prop
  | got {e : Value} : c.Gets e → Runs c e
  | parts (id : Identity) {car cdr : Value} (span : Span) : c.Gets car → c.Gets cdr →
    Runs c (.pair id car cdr span)

/-- The host hands in what it got, be it as arguments in a list, or has data taken up that it made
up around closures that it got. -/
def Grants (c : Course) : Act → Prop
  | .evalText _ | .runSource _ _ _ => True
  | .eval _ e => c.Runs e
  | .apply _ callee args => c.Gets callee ∧ ∀ v ∈ args.elements, c.Gets v
  | .perform _ _ _ _ => False
  | .enter v => v.Every c.Shows

/-- What a host keeps of that which a form comes to: the value, or of an expression that is left to
be run the parts. -/
def kept : Ending Next → List Value
  | .value (.done v) _ => [v]
  | .value (.eval (.pair _ car cdr _) _) _ => [car, cdr]
  | .value (.eval e _) _ => [e]
  | _ => []

/-- A session with these files can have come as far as that by acts of such a host. Of a form, it
keeps other things than an `Act` would give back. -/
inductive Dealt (files : Files) : Course → Prop
  | start : Dealt files (start files)
  | act {c : Course} {σ : State} (s : Settings) (budget : Nat) (a : Act) : Dealt files c →
    c.Grants a → (a.run s budget c.state).state? = some σ →
      Dealt files ⟨σ, answer (a.run s budget c.state) ++ c.held⟩
  | form {c : Course} {σ : State} {r : Ending Next} (s : Settings) (budget : Nat) (form : Form)
    (i : FrameId) {operands : Value} (span : Span) : Dealt files c → c.Gets operands →
      form.perform (Session.eval s budget) i operands span c.state = r → r.state? = some σ →
        Dealt files ⟨σ, kept r ++ c.held⟩

/-- The ledger goes with the state, and what was handed out is recorded in it. -/
structure Recorded (κ : Ledger) (c : Course) : Prop where
  state : c.state.Shares κ
  held : ∀ v ∈ c.held, v.Recorded κ

variable {c : Course}

theorem Recorded.knows {v : Value} (h : c.Recorded κ) (hv : c.Knows v) : v.Recorded κ := by
  rcases hv with hv | ⟨i, f, name, hf, hb⟩
  · exact h.held v hv
  · exact h.state.bound i f hf _ hb

theorem Recorded.gets {v : Value} (h : c.Recorded κ) (hv : c.Gets v) : v.Recorded κ := by
  induction hv with
  | known hv => exact h.knows hv
  | car _ ih => exact ih.2.1
  | cdr _ ih => exact ih.2.2
  | @atom v hcar hclosures =>
      cases v with
      | pair => cases hcar
      | lambda => cases hclosures
      | mu => cases hclosures
      | _ => trivial

theorem Recorded.runs {e : Value} (h : c.Recorded κ) (he : c.Runs e) : e.Runnable κ := by
  cases he with
  | got he => exact (h.gets he).runnable
  | parts id span hcar hcdr => exact ⟨h.gets hcar, h.gets hcdr⟩

theorem Recorded.shows {p : Value} (h : c.Recorded κ) (hp : c.Shows p) : p.Recorded κ := by
  obtain ⟨v, hv, hp⟩ := hp
  exact Value.every_iff.mp ((Value.closures_recorded v).1 (h.knows hv)) p hp

theorem Recorded.run {a : Act} (h : c.Recorded κ) (ha : c.Grants a) (s : Settings)
    (budget : Nat) : (a.run s budget).Shares κ fun κ' vs => ∀ v ∈ vs, v.Recorded κ' := by
  have heval : (Session.eval s budget).Shares := Eval.shares_nested s budget 0
  have one {κ' : Ledger} {v : Value} (hv : v.Recorded κ') : ∀ w ∈ [v], w.Recorded κ' :=
    List.forall_mem_singleton.mpr hv
  cases a with
  | evalText text =>
      refine (Run.shares_program heval root text).bind fun κ₁ result _ hresult => ?_
      cases result with
      | ok v => exact pure (one (hresult v rfl))
      | error e => exact pure (List.forall_mem_nil _)
  | runSource source text echo =>
      exact (Run.shares_source heval root source text echo).bind fun _ _ _ _ =>
        pure (List.forall_mem_nil _)
  | eval i e =>
      exact (heval κ e i (h.runs ha)).bind fun _ _ _ hv => pure (one hv)
  | apply i callee args =>
      obtain ⟨hcallee, hargs⟩ := ha
      exact (shares_apply s budget i (h.gets hcallee) fun v hv => h.gets (hargs v hv)).bind
        fun _ _ _ hv => pure (one hv)
  | perform form i operands span => exact ha.elim
  | enter v =>
      exact (shares_enter (Value.Every.mono (fun _ hp => h.shows hp) ha)).bind
        fun _ _ _ hv => pure (one hv)

theorem recorded_start (files : Files) : (Course.start files).Recorded .empty := by
  refine ⟨⟨fun i f hf => ?_, fun _ _ => rfl⟩, List.forall_mem_nil _⟩
  have hlt : i < (Session.start files).frames.size := Frames.lt_size hf
  cases Nat.lt_one_iff.mp hlt
  cases hf
  intro b hb
  obtain ⟨p, -, rfl⟩ := List.mem_map.mp hb
  exact trivial

/-- What is kept of that which a form comes to is recorded. -/
theorem recorded_kept {next : Next} {σ : State} (h : next.Recorded κ) :
    ∀ v ∈ kept (.value next σ), v.Recorded κ := by
  cases next with
  | done v => exact List.forall_mem_singleton.mpr h
  | eval e j =>
      cases e with
      | pair id car cdr span =>
          exact List.forall_mem_cons.mpr ⟨h.1, List.forall_mem_singleton.mpr h.2⟩
      | _ => exact List.forall_mem_singleton.mpr h

/-- Something that keeps a ledger is done, and what is kept of its result is recorded. -/
theorem Recorded.after {x : Action α} {P : Ledger → α → Prop} {σ : State}
    {hand : Ending α → List Value} (h : c.Recorded κ) (hx : x.Shares κ P)
    (hvalue : ∀ {κ' a σ'}, P κ' a → ∀ v ∈ hand (.value a σ'), v.Recorded κ')
    (herror : ∀ {e σ'}, hand (.error e σ') = []) (hend : (x c.state).state? = some σ) :
    ∃ κ', Course.Recorded κ' ⟨σ, hand (x c.state) ++ c.held⟩ := by
  have hends := hx c.state h.state
  cases hr : x c.state with
  | value a σ₁ =>
      rw [hr] at hends hend
      cases hend
      obtain ⟨κ', hwithin, hstate, ha⟩ := hends
      exact ⟨κ', hstate,
        List.forall_mem_append.mpr ⟨hvalue ha, Value.recorded_mono h.held hwithin⟩⟩
  | error e σ₁ =>
      rw [hr] at hends hend
      cases hend
      obtain ⟨κ', hwithin, hstate⟩ := hends
      rw [herror]
      exact ⟨κ', hstate, Value.recorded_mono h.held hwithin⟩
  | cutShort =>
      rw [hr] at hend
      cases hend

/-- At any time there is a ledger with all that a host can get hold of. -/
theorem Dealt.recorded (h : c.Dealt files) : ∃ κ, c.Recorded κ := by
  induction h with
  | start => exact ⟨.empty, recorded_start files⟩
  | act s budget a _ hgrants hend ih =>
      obtain ⟨κ, hκ⟩ := ih
      exact hκ.after (hκ.run hgrants s budget) (fun ha => ha) rfl hend
  | form s budget form i span _ hgets hr hend ih =>
      obtain ⟨κ, hκ⟩ := ih
      have heval : (Session.eval s budget).Shares := Eval.shares_nested s budget 0
      subst hr
      exact hκ.after (Form.shares_perform heval i span (hκ.gets hgets) form) recorded_kept rfl hend

end Course

/-- The comparison of two values comes to an answer, after at most one round for each node of the
first one and a last round, and the answer is that of the definition by recursion. So the primitive
`equal?` affirms that a value equals itself exactly if there is no NaN in it, and it is symmetric
and transitive. Of the values that a host can get hold of in a session, it affirms what `eq?` does,
unless there is a NaN in them. -/
theorem equality_structural {c : Course} (h : c.Dealt files) :
    (∀ v w, (∃ n ≤ v.size + 1, Value.Answers (v.equal w) n [(v, w)]) ∧
      (∀ answer n, Value.Answers answer n [(v, w)] → v.equal w = answer) ∧
      (v.equal w = true ↔ v.Equal w)) ∧
    (∀ v, Primitive.equal.Affirms v v ↔ v.NoNaN) ∧
    (∀ v w, Primitive.equal.Affirms v w → Primitive.equal.Affirms w v) ∧
    (∀ u v w, Primitive.equal.Affirms u v → Primitive.equal.Affirms v w →
      Primitive.equal.Affirms u w) ∧
    ∀ v w, c.Gets v → c.Gets w → v.NoNaN → Primitive.eq.Affirms v w →
      Primitive.equal.Affirms v w := by
  refine ⟨fun v w => ⟨Value.answers_allEqual [(v, w)], fun _ _ hanswer => hanswer.eq,
      Value.equal_iff⟩,
    fun v => Primitive.equal_affirms_self_iff,
    fun v w hvw => Primitive.equal_affirms_symm hvw,
    fun u v w huv hvw => Primitive.equal_affirms_trans huv hvw, fun v w hv hw hnan hsame => ?_⟩
  obtain ⟨κ, hκ⟩ := h.recorded
  rw [Primitive.eq_affirms_iff] at hsame
  rw [Primitive.equal_affirms_iff]
  exact (hκ.gets hv).equal_of_same (hκ.gets hw) hnan hsame

section

/-- What `(cons #t ())` comes to in a new session. -/
def consed : Value :=
  .pair (.made 0) (.boolean true .none) (.nil .none) .none

def madeConsed : Course where
  state := { start fun _ => .error .notFound with made := 1 }
  held := [consed]

theorem madeConsed_dealt : madeConsed.Dealt fun _ => .error .notFound := by
  refine .act ⟨.tailCall, 1⟩ 1 (.apply root (.primitive .cons .none)
    (.ofList [.boolean true .none, .nil .none])) .start ⟨.atom rfl rfl, ?_⟩ rfl
  rw [Value.elements_ofList]
  exact List.forall_mem_cons.mpr ⟨.atom rfl rfl, List.forall_mem_singleton.mpr (.atom rfl rfl)⟩

/-- A pair with `consed` in both of its places. -/
def doubled : Value :=
  .pair (.made 1) consed consed .none

def madeDoubled : Course where
  state := { start fun _ => .error .notFound with made := 2 }
  held := [doubled, consed]

theorem madeDoubled_dealt : madeDoubled.Dealt fun _ => .error .notFound := by
  refine .act ⟨.tailCall, 1⟩ 1 (.apply root (.primitive .cons .none) (.ofList [consed, consed]))
    madeConsed_dealt ⟨.atom rfl rfl, ?_⟩ rfl
  have hgets : madeConsed.Gets consed := .known (.inl List.mem_cons_self)
  rw [Value.elements_ofList]
  exact List.forall_mem_cons.mpr ⟨hgets, List.forall_mem_singleton.mpr hgets⟩

/-- What was handed out once is equal to what is found in a pair later on. -/
theorem equality_structural_doubled :
    madeDoubled.Dealt (fun _ => .error .notFound) ∧
      (∃ id car span, madeDoubled.Gets (.pair id car consed span)) ∧ madeDoubled.Gets consed ∧
      consed.NoNaN ∧ Primitive.eq.Affirms consed consed ∧
      Primitive.equal.Affirms consed consed := by
  have hpair : madeDoubled.Gets doubled := .known (.inl List.mem_cons_self)
  have hgets : madeDoubled.Gets consed := .known (.inl (by simp [madeDoubled]))
  have hnan : consed.NoNaN := ⟨trivial, trivial⟩
  have hsame : Primitive.eq.Affirms consed consed := Primitive.eq_affirms_iff.mpr rfl
  obtain ⟨-, -, -, -, hequal⟩ := equality_structural madeDoubled_dealt
  exact ⟨madeDoubled_dealt, ⟨_, _, _, hpair⟩, hgets, hnan, hsame,
    hequal consed consed hgets hpair.cdr hnan hsame⟩

end

end Session

end DualScope
