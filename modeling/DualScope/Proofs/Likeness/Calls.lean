import DualScope.Primitive.Call
import DualScope.Proofs.Likeness.Forms

/-!
# Calls that are alike

The primitives take their arguments apart as the forms do their operands, or compute with the
data in them, which is the same for arguments that are alike. What they print is the same to
the letter. A file that is loaded is the same on both sides, and so are the tokens in it.
-/

namespace DualScope

variable {L : Likeness} {C : Accord L} {eval eval' : Evaluation}

/-! ## Sources -/

namespace Run

theorem like_enter {vs vs' : List Value} (h : List.Forall₂ (Value.Like L) vs vs') :
    C.Agree (List.Forall₂ (Value.Like L)) (enter vs) (enter vs') :=
  .bind C.takeText fun _ _ htext => .pure (Value.like_stampAll htext h)

theorem like_expressions (heval : C.Evaluations eval eval') (i : FrameId) (source text : String)
    (echo : Bool) (errors : Nat) {es es' : List Value} (h : List.Forall₂ (Value.Like L) es es') :
    C.Agree Eq (expressions eval i source text echo errors es)
      (expressions eval' i source text echo errors es') := by
  induction h generalizing errors with
  | nil => exact .pure rfl
  | cons he _ ih =>
      rw [expressions_cons, expressions_cons]
      refine .bind (C.reported source text (heval _ _ i he)) fun r r' hr => ?_
      cases hr with
      | none => exact ih (errors + 1)
      | some hv =>
          dsimp only
          rw [hv.isOkay, hv.text]
          split
          · exact .bind (.write rfl) fun _ _ _ => ih errors
          · exact ih errors

/-- The same text is read alike on both sides. -/
theorem like_source (heval : C.Evaluations eval eval') (i : FrameId) (source : String)
    {text : String} (htext : L.Admits text) (echo : Bool) :
    C.Agree Eq (Run.source eval i source text echo) (Run.source eval' i source text echo) := by
  have hlexemes := like_lexemes htext
  unfold Run.source
  generalize lexemes text = x at hlexemes ⊢
  cases hlexemes with
  | error he => exact .bind (C.fault source text he) fun _ _ _ => .pure rfl
  | @ok ts _ hts =>
      obtain ⟨hvs, hfault⟩ := Reader.like_all hts
      refine .bind (like_enter hvs) fun es es' hes => ?_
      refine .bind (like_expressions heval i source text echo 0 hes) ?_
      rintro errors _ rfl
      generalize (Reader.all ts).2 = fault at hfault ⊢
      cases hfault with
      | none => exact .pure rfl
      | some he => exact .bind (C.fault source text he) fun _ _ _ => .pure rfl

theorem like_lastValue (heval : C.Evaluations eval eval') (i : FrameId) {es es' : List Value}
    (h : List.Forall₂ (Value.Like L) es es') {last last' : Value} (hlast : last.Like L last') :
    C.Agree (Value.Like L) (lastValue eval i last es) (lastValue eval' i last' es') := by
  induction h generalizing last last' with
  | nil => exact .pure hlast
  | cons he _ ih => exact .bind (heval _ _ i he) fun v v' hv => ih hv

/-- Two texts that are read alike are run alike. -/
theorem like_program (heval : (Accord.alike L).Evaluations eval eval') (i : FrameId)
    {text text' : String}
    (hread : LikeExcept (ReadError.Like L) (List.Forall₂ (Value.Like L)) (readProgram text)
      (readProgram text')) :
    (program eval i text).Like L (LikeExcept (RunError.Like L) (Value.Like L))
      (program eval' i text') := by
  unfold program
  generalize readProgram text = x at hread ⊢
  generalize readProgram text' = y at hread ⊢
  cases hread with
  | error he => exact .pure (.error (.read he))
  | ok hes =>
      refine .bind ((like_enter hes : (Accord.alike L).Agree _ _ _)) fun es es' hes => ?_
      have hlast : Action.Like L (Value.Like L) (lastValue eval i (.okay .none) es)
          (lastValue eval' i (.okay .none) es') :=
        like_lastValue heval i hes (.okay (L.span_refl .none))
      refine .bind hlast.attempt fun r r' hr => .pure ?_
      cases hr with
      | ok hv => exact .ok hv
      | error he => exact .error (.eval he)

end Run

/-! ## Loading -/

namespace Load

theorem like_fileName? {v v' : Value} (h : v.Like L v') : fileName? v' = fileName? v := by
  cases h <;> rfl

theorem like_find (name : String) :
    C.Agree (fun r r' => r = r' ∧ ∀ found, r = .ok found → L.Admits found.2) (find name)
      (find name) := by
  refine .bind (C.request name) ?_
  rintro r _ ⟨rfl, htext⟩
  cases r with
  | ok text => exact .pure ⟨rfl, fun _ h => by cases h; exact htext text rfl⟩
  | error why =>
      refine .bind (C.request (withExtension name)) ?_
      rintro r _ ⟨rfl, htext⟩
      cases r with
      | ok text => exact .pure ⟨rfl, fun _ h => by cases h; exact htext text rfl⟩
      | error _ => exact .pure ⟨rfl, fun _ h => by cases h⟩

theorem like_perform (heval : C.Evaluations eval eval') (i : FrameId) {name name' : Value}
    (h : name.Like L name') (echo : Bool) :
    C.Agree Eq (perform eval i name echo) (perform eval' i name' echo) := by
  unfold perform
  rw [like_fileName? h, h.kind]
  cases fileName? name with
  | none => exact .pure rfl
  | some s =>
      refine .bind (like_find s) ?_
      rintro r _ ⟨rfl, hfound⟩
      cases r with
      | error f => exact .pure rfl
      | ok found =>
          obtain ⟨source, text⟩ := found
          refine .bind (C.root i) ?_
          rintro root _ rfl
          have htext := hfound _ rfl
          exact .bind (Run.like_source heval root source htext echo) fun _ _ _ => .pure rfl

end Load

/-! ## Primitives -/

theorem like_numbersAfter {args args' : List Value} (h : List.Forall₂ (Value.Like L) args args')
    (found : List Float) (position : Nat) :
    numbersAfter found position args' = numbersAfter found position args := by
  induction h generalizing found position with
  | nil => rfl
  | cons hv _ ih =>
      cases hv with
      | number x _ => exact ih (x :: found) (position + 1)
      | _ => rfl

theorem like_countedNumbers {args args' : List Value} (h : List.Forall₂ (Value.Like L) args args')
    (arity : Arity) : countedNumbers arity args' = countedNumbers arity args := by
  rw [countedNumbers, countedNumbers, h.length_eq, numbers, numbers, like_numbersAfter h]

theorem Arithmetic.like_compute (op : Arithmetic) {args args' : List Value}
    (h : List.Forall₂ (Value.Like L) args args') : op.compute args' = op.compute args := by
  rw [compute, compute, like_countedNumbers h]

theorem Comparison.like_compute (op : Comparison) {args args' : List Value}
    (h : List.Forall₂ (Value.Like L) args args') : op.compute args' = op.compute args := by
  rw [compute, compute, like_countedNumbers h]

theorem Test.like_holds (t : Test) {v v' : Value} (h : v.Like L v') : t.holds v' = t.holds v := by
  cases t with
  | isFalse => exact congrArg (! ·) h.isTrue
  | isList => exact h.isProper
  | _ => exact congrArg (· == _) h.kind

namespace Primitive

theorem like_ofFault (p : Primitive) {s s' : Span} (hs : L.span s s') {x y : Except Fault α}
    (h : y = x) : C.Agree Eq (p.ofFault s x) (p.ofFault s' y) := by
  subst h
  cases y with
  | ok a => exact .pure rfl
  | error f => exact .fail (.primitive p f hs)

section

variable {i : FrameId} {s s' : Span}

theorem like_fault (p : Primitive) (f : Fault) (hs : L.span s s') :
    C.Agree (Value.Like L) (p.fault s f) (p.fault s' f) :=
  .fail (.primitive p f hs)

theorem like_miscounted (p : Primitive) (hs : L.span s s') {args args' : List Value}
    (h : List.Forall₂ (Value.Like L) args args') :
    C.Agree (Value.Like L) (p.fault s (.arity p.arity args.length))
      (p.fault s' (.arity p.arity args'.length)) := by
  rw [h.length_eq]
  exact like_fault p _ hs

theorem like_written {text text' : String} (h : text' = text) :
    C.Agree (Value.Like L)
      (Action.write text >>= fun _ => Pure.pure (Value.okay .none))
      (Action.write text' >>= fun _ => Pure.pure (Value.okay .none)) :=
  .bind (.write h) fun _ _ _ => .pure (.okay (L.span_refl _))

theorem like_loaded (heval : C.Evaluations eval eval') (i : FrameId) (hs : L.span s s')
    {name name' : Value} (h : name.Like L name') (echo : Bool) :
    C.Agree (Value.Like L)
      (Load.perform eval i name echo >>= fun r =>
        Primitive.load.ofFault s r >>= fun _ => Pure.pure (Value.okay .none))
      (Load.perform eval' i name' echo >>= fun r =>
        Primitive.load.ofFault s' r >>= fun _ => Pure.pure (Value.okay .none)) := by
  refine .bind (Load.like_perform heval i h echo) ?_
  rintro r _ rfl
  exact .bind (like_ofFault .load hs rfl) fun _ _ _ => .pure (.okay (L.span_refl _))

theorem call_list (eval : Evaluation) (i : FrameId) (s : Span) (v : Value) (vs : List Value) :
    Primitive.list.call eval i s (v :: vs) = Action.makeList (v :: vs) := by
  funext σ
  exact (Action.makeList_apply (v :: vs) σ).symm

theorem like_list (hs : L.span s s') {args args' : List Value}
    (h : List.Forall₂ (Value.Like L) args args') :
    C.Agree (Value.Like L) (Primitive.list.call eval i s args)
      (Primitive.list.call eval' i s' args') := by
  cases h with
  | nil => exact .pure (.nil hs)
  | @cons v v' vs vs' hv hvs =>
      rw [call_list, call_list]
      exact .makeList (.cons hv hvs)

theorem like_call (heval : C.Evaluations eval eval') (i : FrameId) (p : Primitive)
    (hs : L.span s s') {args args' : List Value} (h : List.Forall₂ (Value.Like L) args args') :
    C.Agree (Value.Like L) (p.call eval i s args) (p.call eval' i s' args') := by
  -- With a number of arguments that it does not take, a primitive only says how many there are.
  have hmiscounted := like_miscounted (C := C) p hs h
  cases p with
  | arithmetic op =>
      refine .bind (like_ofFault _ hs (op.like_compute h)) ?_
      rintro x _ rfl
      exact .pure (.number x hs)
  | comparison op =>
      refine .bind (like_ofFault _ hs (op.like_compute h)) ?_
      rintro b _ rfl
      exact .pure (.boolean b hs)
  | test t =>
      rcases h with _ | ⟨hv, _ | ⟨hw, hrest⟩⟩
      · exact hmiscounted
      · refine .pure ?_
        rw [t.like_holds hv]
        exact .boolean _ hs
      · exact hmiscounted
  | eq =>
      rcases h with _ | ⟨hv, _ | ⟨hw, _ | ⟨hx, hrest⟩⟩⟩
      · exact hmiscounted
      · exact hmiscounted
      · refine .pure ?_
        rw [hv.same hw]
        exact .boolean _ hs
      · exact hmiscounted
  | equal =>
      rcases h with _ | ⟨hv, _ | ⟨hw, _ | ⟨hx, hrest⟩⟩⟩
      · exact hmiscounted
      · exact hmiscounted
      · refine .pure ?_
        rw [hv.equal hw]
        exact .boolean _ hs
      · exact hmiscounted
  | cons =>
      rcases h with _ | ⟨hv, _ | ⟨hw, _ | ⟨hx, hrest⟩⟩⟩
      · exact hmiscounted
      · exact hmiscounted
      · exact .bind C.freshIdentity fun _ _ hid => .pure (.pair hid hv hw hs)
      · exact hmiscounted
  | car =>
      rcases h with _ | ⟨hv, _ | ⟨hw, hrest⟩⟩
      · exact hmiscounted
      · cases hv with
        | pair _ hcar _ _ => exact .pure hcar
        | _ => exact like_fault .car _ hs
      · cases hv <;> exact hmiscounted
  | cdr =>
      rcases h with _ | ⟨hv, _ | ⟨hw, hrest⟩⟩
      · exact hmiscounted
      · cases hv with
        | pair _ _ hcdr _ => exact .pure hcdr
        | _ => exact like_fault .cdr _ hs
      · cases hv <;> exact hmiscounted
  | list => exact like_list hs h
  | length =>
      rcases h with _ | ⟨hv, _ | ⟨hw, hrest⟩⟩
      · exact hmiscounted
      · unfold call
        dsimp only
        rw [hv.length?, hv.kind]
        split
        · exact .pure (.number _ hs)
        · exact like_fault .length _ hs
      · exact hmiscounted
  | display =>
      rcases h with _ | ⟨hv, _ | ⟨hw, hrest⟩⟩
      · exact hmiscounted
      · exact like_written hv.shown
      · exact hmiscounted
  | newline =>
      rcases h with _ | ⟨hv, hrest⟩
      · exact like_written rfl
      · exact hmiscounted
  | print =>
      rcases h with _ | ⟨hv, _ | ⟨hw, hrest⟩⟩
      · exact hmiscounted
      · exact like_written (congrArg (· ++ "\n") hv.text)
      · exact hmiscounted
  | eval =>
      rcases h with _ | ⟨hv, _ | ⟨hw, hrest⟩⟩
      · exact hmiscounted
      · exact heval _ _ i hv
      · exact hmiscounted
  | apply => exact hmiscounted
  | load =>
      rcases h with _ | ⟨hv, _ | ⟨hw, _ | ⟨hx, hrest⟩⟩⟩
      · exact hmiscounted
      · exact like_loaded heval i hs hv false
      · unfold call
        dsimp only
        rw [hw.isTrue]
        exact like_loaded heval i hs hv _
      · exact hmiscounted

end

end Primitive

end DualScope
