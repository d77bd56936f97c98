import DualScope.Proofs.Course
import DualScope.Proofs.Reachable

/-!
# The frames of a session

The frames of a session form a tree. The global frame, the first one, is its root, and every
other frame hangs below an older one for good. So the way up from any frame comes to an end,
at the global frame, and looking up a name, gathering the names and finding the global frame
all go that way: that they ask for a parent to be older never makes a difference.

A closure names the frame that it was made in by a number, and that frame is there. That
this holds of all that a program can get hold of, however deep inside of other data, is a
discipline together with the shape of the frames; and so is that the formals of a closure
have passed their check.
-/

namespace DualScope

/-! ## Trees of frames -/

namespace Frames

/-- Frame `top` has no parent, and every other one has an older parent. -/
structure Tree (fs : Frames) (top : FrameId) : Prop where
  root : ∃ f, fs.get? top = some f ∧ f.parent = none
  below : ∀ i f, fs.get? i = some f → i ≠ top → ∃ p, f.parent = some p ∧ p < i

/-- The way up from a frame, from each frame to its parent until there is none. -/
inductive Climb (fs : Frames) : FrameId → List FrameId → Prop
  | top {i : FrameId} {f : Frame} : fs.get? i = some f → f.parent = none → Climb fs i [i]
  | up {i p : FrameId} {f : Frame} {path : List FrameId} : fs.get? i = some f →
    f.parent = some p → Climb fs p path → Climb fs i (i :: path)

/-- Every frame is there in the second collection, below the same parent. -/
def KeepsParents (fs gs : Frames) : Prop :=
  ∀ i f, fs.get? i = some f → ∃ g, gs.get? i = some g ∧ g.parent = f.parent

variable {fs gs hs : Frames} {top i : FrameId}

theorem KeepsParents.refl (fs : Frames) : fs.KeepsParents fs :=
  fun _ f hf => ⟨f, hf, rfl⟩

theorem KeepsParents.trans (h₁ : fs.KeepsParents gs) (h₂ : gs.KeepsParents hs) :
    fs.KeepsParents hs := by
  intro i f hf
  obtain ⟨g, hg, hgf⟩ := h₁ i f hf
  obtain ⟨h, hh, hhg⟩ := h₂ i g hg
  exact ⟨h, hh, hhg.trans hgf⟩

theorem keepsParents_bind (fs : Frames) (i : FrameId) (name : String) (v : Value) :
    fs.KeepsParents (fs.bind i name v) := by
  intro j f hf
  rw [get?_bind, hf]
  split
  · exact ⟨f.bind name v, rfl, rfl⟩
  · exact ⟨f, rfl, rfl⟩

theorem keepsParents_push (fs : Frames) (f : Frame) : fs.KeepsParents (fs.push f) := by
  intro j g hg
  have hj : j < fs.size := lt_size hg
  exact ⟨g, by rw [get?_push, if_neg (Nat.ne_of_lt hj), hg], rfl⟩

theorem Tree.bind (h : fs.Tree top) (i : FrameId) (name : String) (v : Value) :
    (fs.bind i name v).Tree top := by
  obtain ⟨f, hf, hnone⟩ := h.root
  refine ⟨?_, ?_⟩
  · obtain ⟨g, hg, hgf⟩ := keepsParents_bind fs i name v top f hf
    exact ⟨g, hg, hgf.trans hnone⟩
  · intro j g hg hj
    rw [get?_bind] at hg
    split at hg
    · obtain ⟨g', hg', rfl⟩ := Option.map_eq_some_iff.mp hg
      exact h.below j g' hg' hj
    · exact h.below j g hg hj

theorem Tree.push {p : FrameId} (h : fs.Tree top) (hp : p < fs.size)
    (bindings : List (String × Value)) : (fs.push ⟨some p, bindings⟩).Tree top := by
  obtain ⟨f, hf, hnone⟩ := h.root
  refine ⟨?_, ?_⟩
  · obtain ⟨g, hg, hgf⟩ := keepsParents_push fs ⟨some p, bindings⟩ top f hf
    exact ⟨g, hg, hgf.trans hnone⟩
  · intro j g hg hj
    rw [get?_push] at hg
    split at hg
    · next hnew =>
        cases hg
        exact ⟨p, rfl, hnew ▸ hp⟩
    · exact h.below j g hg hj

/-- A parent in a tree is older. -/
theorem Tree.parent_lt {p : FrameId} {f : Frame} (h : fs.Tree top) (hf : fs.get? i = some f)
    (hp : f.parent = some p) : p < i := by
  by_cases hi : i = top
  · obtain ⟨g, hg, hnone⟩ := h.root
    rw [hi, hg] at hf
    cases hf
    rw [hnone] at hp
    cases hp
  · obtain ⟨q, hq, hlt⟩ := h.below i f hf hi
    rw [hp] at hq
    cases hq
    exact hlt

/-! ## Going up -/

/-- In a frame without a parent a name means what it is bound to there. -/
theorem lookup_of_orphan {f : Frame} (hf : fs.get? i = some f) (hparent : f.parent = none)
    (name : String) : fs.lookup name i = f.find? name := by
  rw [lookup.eq_def, hf]
  simp only [hparent]
  cases f.find? name <;> rfl

/-- In a tree the way up from every frame ends, at the root. -/
theorem Tree.climb (h : fs.Tree top) (hi : i < fs.size) :
    ∃ path, fs.Climb i path ∧ path.getLast? = some top := by
  induction i using Nat.strongRecOn with
  | ind i ih =>
      obtain ⟨f, hf⟩ := Option.isSome_iff_exists.mp (get?_isSome.mpr hi)
      -- Below the root the way goes on from the parent, which has a smaller number.
      by_cases htop : i = top
      · obtain ⟨g, hg, hnone⟩ := h.root
        exact ⟨[i], .top (htop ▸ hg) hnone, by rw [htop]; rfl⟩
      · obtain ⟨p, hp, hlt⟩ := h.below i f hf htop
        obtain ⟨path, hpath, hlast⟩ := ih p hlt (Nat.lt_trans hlt hi)
        refine ⟨i :: path, .up hf hp hpath, ?_⟩
        rw [List.getLast?_cons, hlast]
        rfl

section

variable {path : List FrameId}

/-- The frames above a frame, as the walks gather them, are those on the way up. -/
theorem Climb.chain_eq (h : fs.Climb i path) (htree : fs.Tree top) : fs.chain i = path := by
  induction h with
  | top hf hnone =>
      rw [chain.eq_def, hf]
      simp only [hnone]
  | up hf hp _ ih =>
      rw [chain.eq_def, hf]
      simp only [hp, if_pos (htree.parent_lt hf hp), ih]

theorem Climb.root_eq (h : fs.Climb i path) (htree : fs.Tree top) (hlast : path.getLast? = some j) :
    fs.root i = j := by
  rw [root, h.chain_eq htree, hlast]
  rfl

/-- A name means what the first frame on the way up that binds it says. -/
theorem Climb.lookup_eq (h : fs.Climb i path) (htree : fs.Tree top) (name : String) :
    fs.lookup name i = path.findSome? fun j => (fs.get? j).bind (·.find? name) := by
  induction h with
  | @top i f hf hnone =>
      rw [lookup_of_orphan hf hnone, List.findSome?_singleton, hf, Option.bind_some]
  | @up i p f path hf hp _ ih =>
      rw [lookup.eq_def, hf, List.findSome?_cons, hf, Option.bind_some]
      simp only [hp, if_pos (htree.parent_lt hf hp), ih]
      cases f.find? name <;> rfl

theorem mem_eraseReps_loop {a x : String} {l acc : List String} :
    x ∈ List.eraseRepsBy.loop (· == ·) a l acc ↔ x = a ∨ x ∈ l ∨ x ∈ acc := by
  induction l generalizing a acc with
  | nil =>
      rw [List.eraseRepsBy.loop]
      simp [or_comm]
  | cons b l ih =>
      rw [List.eraseRepsBy.loop]
      split
      · next h =>
          rw [ih, beq_iff_eq.mp h]
          simp [or_assoc]
      · rw [ih]
        simp only [List.mem_cons]
        grind

theorem mem_eraseReps {x : String} {l : List String} : x ∈ l.eraseReps ↔ x ∈ l := by
  cases l with
  | nil => rfl
  | cons a l =>
      rw [List.eraseReps, List.eraseRepsBy, mem_eraseReps_loop, List.mem_cons]
      simp

/-- The names with a meaning in a frame are those that a frame on the way up binds. -/
theorem Climb.mem_names (h : fs.Climb i path) (htree : fs.Tree top) (name : String) :
    name ∈ fs.names i ↔ ∃ j ∈ path, ∃ f, fs.get? j = some f ∧ name ∈ f.names := by
  rw [names, mem_eraseReps, List.mem_mergeSort, h.chain_eq htree, List.mem_flatMap]
  refine exists_congr fun j => and_congr_right fun _ => ?_
  cases fs.get? j with
  | none => simp
  | some f => simp

end

end Frames

/-! ## The discipline of a session -/

/-- The formals of a closure. -/
def Value.formals? : Value → Option Value
  | .lambda _ formals _ _ _ | .mu _ formals _ _ => some formals
  | _ => none

/-- The closure was made in one of the first `n` frames, if in any, from formals that passed
their check. -/
structure Value.SoundClosure (n : Nat) (c : Value) : Prop where
  home : ∀ j, c.home? = some j → j < n
  formals : ∀ formals, c.formals? = some formals → Form.checkFormals formals = .ok ()

/-- The frames of a session stay a tree below the global one. -/
def Discipline.heap : Discipline where
  inv σ := σ.frames.Tree Session.root
  frame n j := j < n
  closure := Value.SoundClosure
  moves _ σ σ' := σ.Grows σ' ∧ σ.frames.KeepsParents σ'.frames
  moves_refl := ⟨.refl _, .refl _⟩
  moves_trans h₁ h₂ := ⟨h₁.1.trans h₂.1, h₁.2.trans h₂.2⟩
  moves_inside h₁ _ h₂ := ⟨h₁.1.trans h₂.1, h₁.2.trans h₂.2⟩
  moves_load _ _ h := ⟨(State.grows_emit _ _).trans h.1, h.2⟩
  moves_size h := h.1.size
  moves_log h := h.1.log
  frame_mono hnm h := Nat.lt_of_lt_of_le h hnm
  frame_old _ h _ := h
  frame_parent hinv hj hf hp := Nat.lt_trans (hinv.parent_lt hf hp) hj
  closure_mono hnm h := ⟨fun j hj => Nat.lt_of_lt_of_le (h.home j hj) hnm, h.formals⟩
  closure_home h := h.home _ rfl
  closure_lambda hi hf := ⟨fun j hj => by cases hj; exact hi, fun _ h => by cases h; exact hf⟩
  closure_mu hf := ⟨fun _ hj => (by cases hj), fun _ h => by cases h; exact hf⟩
  emit _ e h := ⟨h, State.grows_emit _ e, .refl _⟩
  count _ _ _ h := ⟨h, ⟨Nat.le_refl _, List.suffix_refl _⟩, .refl _⟩
  bind name v h _ _ :=
    ⟨h.bind _ name v, State.grows_bind _ _ name v, Frames.keepsParents_bind _ _ name v⟩
  push _ bindings h hp _ :=
    ⟨h.push hp bindings, ⟨State.grows_push _ _, Frames.keepsParents_push _ _⟩, Nat.lt_succ_self _⟩

namespace Session

open Course

theorem tree_start (files : Files) : (start files).frames.Tree root := by
  refine ⟨⟨Frame.global, rfl, rfl⟩, ?_⟩
  intro i f hf hi
  have hlt : i < (start files).frames.size := Frames.lt_size hf
  exact absurd (Nat.lt_one_iff.mp hlt) hi

/-- What the frames and the closures of a session are like holds all along its course. -/
theorem heap_holds {files : Files} {c : Course} (h : c.Reached files) : Discipline.heap.Holds c :=
  (Discipline.Holds.start (tree_start files)).leads id h

end Session

/-! ## The walks of a session -/

/-- The way up from frame `i` ends at frame `top`, and all walks go that way. -/
structure Frames.Walks (fs : Frames) (top i : FrameId) (path : List FrameId) : Prop where
  climb : fs.Climb i path
  last : path.getLast? = some top
  root : fs.root i = top
  lookup : ∀ name, fs.lookup name i = path.findSome? fun j => (fs.get? j).bind (·.find? name)
  names : ∀ name, name ∈ fs.names i ↔ ∃ j ∈ path, ∃ f, fs.get? j = some f ∧ name ∈ f.names

theorem Frames.Tree.walks {fs : Frames} {top i : FrameId} (h : fs.Tree top) (hi : i < fs.size) :
    ∃ path, fs.Walks top i path := by
  obtain ⟨path, hclimb, hlast⟩ := h.climb hi
  exact ⟨path, hclimb, hlast, hclimb.root_eq h hlast, hclimb.lookup_eq h, hclimb.mem_names h⟩

namespace Session

/-- However a session was used, its frames are a tree below the global one; no frame ever gets
another parent; the way up from every frame ends at the global one, and the walks go that way;
and every closure in a value that is bound or was handed out was made in a frame that is
there. -/
theorem heap_well_formed {files : Files} {c : Course} (h : c.Reached files) :
    c.state.frames.Tree root ∧
      (∀ c', c.Leads c' → c.state.frames.KeepsParents c'.state.frames) ∧
      (∀ i < c.state.frames.size, ∃ path, c.state.frames.Walks root i path) ∧
      ∀ v, c.Knows v → v.Within c.state.frames.size := by
  have hheap := heap_holds h
  have htree : c.state.frames.Tree root := hheap.sound.inv
  refine ⟨htree, ?_, fun i hi => htree.walks hi, ?_⟩
  · exact fun c' hc' => (hheap.moves id id hc' root).2
  · exact fun v hv => Value.Every.mono (fun _ hp => hp.home) (hheap.fine id hv)

section

/-- `((lambda (x) (lambda () x)) #t)` -/
def makeThunk : Value :=
  .ofList [.ofList [.symbol "lambda" .none, .ofList [.symbol "x" .none],
    .ofList [.symbol "lambda" .none, .nil .none, .symbol "x" .none]], .boolean true .none]

/-- A session in which `makeThunk` was evaluated; the result was made in the frame of the
call. -/
def madeThunk : Course where
  state := { (start fun _ => .error .notFound).push ⟨some root, [("x", .boolean true .none)]⟩ with
    made := 2 }
  held := [.lambda (.made 1) (.nil .none) (.symbol "x" .none) 1 .none]

theorem madeThunk_reached : madeThunk.Reached fun _ => .error .notFound :=
  .act ⟨.tailCall, 2⟩ 4 (.eval root makeThunk) .refl
    ⟨Nat.zero_lt_one, List.forall_mem_singleton.mpr
      (by simp [makeThunk, Value.ofList, Value.Every])⟩ rfl

theorem heap_well_formed_madeThunk :
    madeThunk.Reached (fun _ => .error .notFound) ∧
      madeThunk.state.frames.Tree root ∧
      (∀ c', madeThunk.Leads c' → madeThunk.state.frames.KeepsParents c'.state.frames) ∧
      (∀ i < 2, ∃ path, madeThunk.state.frames.Walks root i path) ∧
      ∀ v, madeThunk.Knows v → v.Within 2 :=
  ⟨madeThunk_reached, heap_well_formed madeThunk_reached⟩

end

end Session

end DualScope
