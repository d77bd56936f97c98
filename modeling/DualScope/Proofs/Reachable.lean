import DualScope.Proofs.Course

/-!
# Reachable states

A state is reachable if single acts lead to it from one without frames: something goes
out, identities are given out, a frame is made below one that is there or below none, a
value is bound. The only thing asked of the values is that their closures were made in
frames that are there. So the states in the middle of an evaluation are reachable as
well as those at its end, and so is whatever a host makes of a session by working on its
frames directly.

That this is enough is shown of evaluations and of sessions: begun in a reachable state,
an evaluation leaves a reachable one, however it ends, and so does whatever a host has
done in the course of a session, be it an evaluation, a call, a form or a text.
-/

namespace DualScope

/-- The frame that a closure was made in. -/
def Value.home? : Value → Option FrameId
  | .lambda _ _ _ home _ => some home
  | _ => none

/-- Every closure in the value was made in one of the first `n` frames. -/
def Value.Within (n : Nat) (v : Value) : Prop :=
  v.Every fun c => ∀ j, c.home? = some j → j < n

theorem Value.Within.mono {n m : Nat} {v : Value} (h : v.Within n) (hnm : n ≤ m) : v.Within m :=
  Every.mono (fun _ hc j hj => Nat.lt_of_lt_of_le (hc j hj) hnm) h

inductive State.Reachable : State → Prop
  | initial (files : Files) : Reachable (.initial files)
  | emit {σ : State} (e : Event) : Reachable σ → Reachable (σ.emit e)
  | count {σ : State} (made texts : Nat) :
    Reachable σ → Reachable { σ with made := made, texts := texts }
  | bind {σ : State} (i : FrameId) (name : String) {v : Value} :
    Reachable σ → v.Within σ.frames.size →
      Reachable { σ with frames := σ.frames.bind i name v }
  | push {σ : State} {f : Frame} : Reachable σ → (∀ p, f.parent = some p → p < σ.frames.size) →
    (∀ b ∈ f.bindings, b.2.Within σ.frames.size) → Reachable (σ.push f)

namespace State.Reachable

/-! ## Frames of reachable states -/

theorem parent_lt {σ : State} {i p : FrameId} {f : Frame} (h : σ.Reachable)
    (hf : σ.frames.get? i = some f) (hp : f.parent = some p) : p < i := by
  induction h generalizing f with
  | initial files =>
      have hi : i < 0 := Frames.lt_size hf
      exact absurd hi (Nat.not_lt_zero i)
  | emit e _ ih => exact ih hf hp
  | count made texts _ ih => exact ih hf hp
  | bind j name _ _ ih =>
      rw [Frames.get?_bind] at hf
      split at hf
      · obtain ⟨g, hg, rfl⟩ := Option.map_eq_some_iff.mp hf
        exact ih hg hp
      · exact ih hf hp
  | @push σ f' _ hparent _ ih =>
      rw [State.push, Frames.get?_push] at hf
      split at hf
      · next heq =>
          cases hf
          rw [heq]
          exact hparent p hp
      · exact ih hf hp

theorem within_of_bound {σ : State} {i : FrameId} {f : Frame} (h : σ.Reachable)
    (hf : σ.frames.get? i = some f) : ∀ b ∈ f.bindings, b.2.Within σ.frames.size := by
  induction h generalizing f with
  | initial files =>
      have hi : i < 0 := Frames.lt_size hf
      exact absurd hi (Nat.not_lt_zero i)
  | emit e _ ih => exact ih hf
  | count made texts _ ih => exact ih hf
  | bind j name _ hv ih =>
      rw [Frames.size_bind]
      rw [Frames.get?_bind] at hf
      split at hf
      · obtain ⟨g, hg, rfl⟩ := Option.map_eq_some_iff.mp hf
        exact Frame.forall_insert name hv (ih hg)
      · exact ih hf
  | @push σ f' _ _ hbindings ih =>
      intro b hb
      rw [State.push, Frames.size_push]
      rw [State.push, Frames.get?_push] at hf
      split at hf
      · cases hf
        exact (hbindings b hb).mono (Nat.le_succ _)
      · exact (ih hf b hb).mono (Nat.le_succ _)

/-- A name that the frame does not bind is looked up in the frame above, whichever that is:
in a reachable state it is older, as the lookup asks of it. -/
theorem lookup_of_unbound {σ : State} {i : FrameId} {f : Frame} {name : String} (h : σ.Reachable)
    (hf : σ.frames.get? i = some f) (hname : f.find? name = none) :
    σ.frames.lookup name i = f.parent.bind (σ.frames.lookup name) := by
  rw [Frames.lookup]
  simp only [hf, hname]
  cases hp : f.parent with
  | none => rfl
  | some p => exact if_pos (h.parent_lt hf hp)

end State.Reachable

/-! ## Reachability as a discipline -/

/-- States stay reachable, and things are evaluated in frames that are there. -/
def Discipline.reachable : Discipline where
  inv := State.Reachable
  frame n j := j < n
  closure n c := ∀ j, c.home? = some j → j < n
  moves _ := State.Grows
  moves_refl := .refl _
  moves_trans := .trans
  moves_inside h₁ _ h₂ := h₁.trans h₂
  moves_load _ _ h := (State.grows_emit _ _).trans h
  moves_size h := h.size
  moves_log h := h.log
  frame_mono hnm h := Nat.lt_of_lt_of_le h hnm
  frame_old _ h _ := h
  frame_parent hinv hj hf hp := Nat.lt_trans (hinv.parent_lt hf hp) hj
  closure_mono hnm h j hj := Nat.lt_of_lt_of_le (h j hj) hnm
  closure_home h := h _ rfl
  closure_lambda hi _ j hj := by cases hj; exact hi
  closure_mu _ j hj := by cases hj
  emit _ e h := ⟨.emit e h, State.grows_emit _ e⟩
  count _ made texts h := ⟨.count made texts h, ⟨Nat.le_refl _, List.suffix_refl _⟩⟩
  bind name v h _ hv := ⟨.bind _ name h hv, State.grows_bind _ _ name v⟩
  push _ bindings h hp hb := by
    refine ⟨.push h ?_ hb, State.grows_push _ _, Nat.lt_succ_self _⟩
    intro q hq
    cases hq
    exact hp

namespace State.Reachable

variable {s : Settings} {level : Nat} {i : FrameId} {σ σ' : State}

theorem sound (h : σ.Reachable) : Discipline.reachable.Sound σ :=
  ⟨h, fun _ _ _ hf => h.within_of_bound hf⟩

/-! ## What a host can have done -/

theorem start (files : Files) : (Session.start files).Reachable := by
  refine .push (.initial files) (fun p hp => by cases hp) ?_
  intro b hb
  obtain ⟨p, _, rfl⟩ := List.mem_map.mp hb
  exact trivial

theorem ends {e : Value} {r : Ending Value} (h : σ.Reachable) (hi : i < σ.frames.size)
    (he : e.Within σ.frames.size) (hend : Eval.Ends s level e i σ r)
    (hσ' : r.state? = some σ') : σ'.Reachable :=
  ((Discipline.ends_allows h.sound hi he hend).reaches hσ').2.inv

/-- However far a session has come, its state is reachable. -/
theorem of_reached {files : Files} {c : Session.Course} (h : c.Reached files) :
    c.state.Reachable :=
  ((Discipline.Holds.start (D := .reachable) (start files)).leads id h).sound.inv

end State.Reachable

end DualScope
