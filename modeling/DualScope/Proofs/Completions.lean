import DualScope.Prompt.Completion
import DualScope.Proofs.Heap
import DualScope.Proofs.Layout
import Mathlib.Data.String.Basic

/-!
# What is offered for completion

Two walks go up from a frame: one gathers the names, the other looks a name up. Both are compared
with what a name means, the binding of the nearest frame that has one (`Frames.Means`). In a
reachable state a parent is older than its child, and so the walks stop nowhere on the way: the
names that are gathered are those that are found.

Behind the last delimiter before the cursor stands the beginning of a name. The line is split
there between two characters, so a delimiter of several bytes is left whole. The names that are
offered are those that begin in this way, in order and each once.
-/

namespace DualScope

/-! ## Names of frames -/

namespace Frames

/-- The name is bound to the value in the nearest frame from `i` upwards that binds it. -/
inductive Means (fs : Frames) (name : String) (v : Value) : FrameId → Prop
  | here {i : FrameId} {f : Frame} : fs.get? i = some f → f.find? name = some v →
    Means fs name v i
  | above {i p : FrameId} {f : Frame} : fs.get? i = some f → f.find? name = none →
    f.parent = some p → Means fs name v p → Means fs name v i

theorem means_iff {fs : Frames} {name : String} {v : Value} {i : FrameId} {f : Frame}
    (hf : fs.get? i = some f) :
    fs.Means name v i ↔ f.find? name = some v ∨
      f.find? name = none ∧ ∃ p, f.parent = some p ∧ fs.Means name v p := by
  constructor
  · intro h
    cases h with
    | here hg hv =>
        cases hf.symm.trans hg
        exact .inl hv
    | above hg hnone hp habove =>
        cases hf.symm.trans hg
        exact .inr ⟨hnone, _, hp, habove⟩
  · rintro (hv | ⟨hnone, p, hp, habove⟩)
    · exact .here hf hv
    · exact .above hf hnone hp habove

theorem not_means_of_absent {fs : Frames} {name : String} {v : Value} {i : FrameId}
    (hf : fs.get? i = none) : ¬ fs.Means name v i := by
  intro h
  cases h with
  | here hg _ => rw [hf] at hg; cases hg
  | above hg _ _ _ => rw [hf] at hg; cases hg

end Frames

theorem Frame.mem_names {f : Frame} {name : String} :
    name ∈ f.names ↔ ∃ v, f.find? name = some v := by
  rw [← Option.isSome_iff_exists, find?, List.lookup_isSome_iff, names, List.mem_map]
  refine exists_congr fun b => and_congr_right fun _ => ?_
  rw [beq_iff_eq, eq_comm]

namespace State.Reachable

variable {σ : State} {name : String} {i : FrameId}

/-- Looking a name up finds what it means. -/
theorem lookup_eq_some_iff (h : σ.Reachable) {v : Value} :
    σ.frames.lookup name i = some v ↔ σ.frames.Means name v i := by
  induction i using Nat.strongRecOn with
  | ind i ih =>
      cases hf : σ.frames.get? i with
      | none =>
          rw [Frames.lookup, hf]
          exact iff_of_false (by simp) (Frames.not_means_of_absent hf)
      | some f =>
          rw [Frames.means_iff hf]
          cases hfind : f.find? name with
          | some w => rw [Frames.lookup, hf]; simp [hfind]
          | none =>
              rw [h.lookup_of_unbound hf hfind]
              cases hp : f.parent with
              | none => simp
              | some p => simpa using ih p (h.parent_lt hf hp)

theorem chain_eq {f : Frame} (h : σ.Reachable) (hf : σ.frames.get? i = some f) :
    σ.frames.chain i = i :: (f.parent.map σ.frames.chain).getD [] := by
  rw [Frames.chain, hf]
  cases hp : f.parent with
  | none => simp only [hp]; rfl
  | some p => simp only [hp, if_pos (h.parent_lt hf hp)]; rfl

/-- The names that are gathered are those that mean something. -/
theorem mem_names_iff (h : σ.Reachable) :
    name ∈ σ.frames.names i ↔ ∃ v, σ.frames.Means name v i := by
  rw [Frames.names, Frames.mem_eraseReps, List.mem_mergeSort]
  induction i using Nat.strongRecOn with
  | ind i ih =>
      cases hf : σ.frames.get? i with
      | none =>
          rw [Frames.chain, hf]
          refine iff_of_false List.not_mem_nil ?_
          rintro ⟨v, hv⟩
          exact Frames.not_means_of_absent hf hv
      | some f =>
          rw [h.chain_eq hf, List.flatMap_cons, List.mem_append, hf]
          simp only [Option.map_some, Option.getD_some, Frame.mem_names, Frames.means_iff hf]
          cases hfind : f.find? name with
          | some w => simp
          | none =>
              cases hp : f.parent with
              | none => simp
              | some p => simpa using ih p (h.parent_lt hf hp)

end State.Reachable

theorem Form.mem_all (form : Form) : form ∈ all := by
  cases form <;> decide

namespace Prompt

/-! ## Lists in order -/

theorem pairwise_eraseReps_loop {a : String} {l acc : List String}
    (hl : (a :: l).Pairwise (· ≤ ·)) (hacc : (a :: acc).Pairwise (· > ·)) :
    (List.eraseRepsBy.loop (· == ·) a l acc).Pairwise (· < ·) := by
  induction l generalizing a acc with
  | nil =>
      rw [List.eraseRepsBy.loop]
      exact List.pairwise_reverse.mpr hacc
  | cons b l ih =>
      obtain ⟨hab, hrest⟩ := List.pairwise_cons.mp hl
      rw [List.eraseRepsBy.loop]
      split
      · next heq =>
          rw [beq_iff_eq.mp heq] at hacc ⊢
          exact ih hrest hacc
      · next hne =>
          have hlt : a < b := lt_of_le_of_ne (hab b List.mem_cons_self) (by simpa using hne)
          refine ih hrest (List.pairwise_cons.mpr ⟨?_, hacc⟩)
          refine List.forall_mem_cons.mpr ⟨hlt, fun c hc => ?_⟩
          exact lt_trans (List.rel_of_pairwise_cons hacc hc) hlt

/-- Without its repetitions a list in order is strictly in order. -/
theorem pairwise_eraseReps {l : List String} (h : l.Pairwise (· ≤ ·)) :
    l.eraseReps.Pairwise (· < ·) := by
  cases l with
  | nil => exact .nil
  | cons a l => exact pairwise_eraseReps_loop h (List.pairwise_singleton _ _)

theorem usable_sorted (frames : Frames) (i : FrameId) :
    (usable frames i).Pairwise (· < ·) := by
  refine pairwise_eraseReps ?_
  have htrans : ∀ a b c : String, decide (a ≤ b) → decide (b ≤ c) → decide (a ≤ c) :=
    fun a b c hab hbc => decide_eq_true (le_trans (of_decide_eq_true hab) (of_decide_eq_true hbc))
  have htotal : ∀ a b : String, decide (a ≤ b) || decide (b ≤ a) :=
    fun a b => by simpa using le_total a b
  exact (List.pairwise_mergeSort htrans htotal _).imp of_decide_eq_true

theorem mem_usable {frames : Frames} {i : FrameId} {name : String} :
    name ∈ usable frames i ↔ name ∈ frames.names i ∨ ∃ form : Form, form.name = name := by
  rw [usable, Frames.mem_eraseReps, List.mem_mergeSort, List.mem_append, List.mem_map]
  simp only [Form.mem_all, true_and]

/-! ## What stands before the cursor -/

theorem before_append (front back : List Char) :
    before (Text.bytes front) (front ++ back) = front := by
  induction front with
  | nil =>
      cases back with
      | nil => rfl
      | cons c cs => exact if_neg (Nat.not_le_of_lt c.utf8Size_pos)
  | cons c cs ih =>
      rw [List.cons_append, before, Text.bytes_cons, if_pos (Nat.le_add_right _ _),
        Nat.add_sub_cancel_left, ih]

/-- The characters that have the Unicode property `White_Space`. -/
def whiteSpace : List Char :=
  ['\t', '\n', '\x0b', '\x0c', '\r', ' ', '\u0085', '\u00a0', '\u1680', '\u2000', '\u2001',
    '\u2002', '\u2003', '\u2004', '\u2005', '\u2006', '\u2007', '\u2008', '\u2009', '\u200a',
    '\u2028', '\u2029', '\u202f', '\u205f', '\u3000']

theorem isSpace_iff {c : Char} : Text.isSpace c = true ↔ c ∈ whiteSpace := by
  have hinjective : Function.Injective Char.toNat := fun a b h => Char.toNat_inj.mp h
  have hnumbers : whiteSpace.map Char.toNat =
      [9, 10, 11, 12, 13, 32, 133, 160, 5760, 8192, 8193, 8194, 8195, 8196, 8197, 8198, 8199, 8200,
        8201, 8202, 8232, 8233, 8239, 8287, 12288] := by decide
  rw [← List.mem_map_of_injective hinjective, hnumbers]
  simp only [Text.isSpace, Bool.or_eq_true, Bool.and_eq_true, decide_eq_true_eq, List.mem_cons,
    List.not_mem_nil, or_false]
  omega

/-- The character stands between names: it is white space, a bracket or a quote. -/
inductive Delimits : Char → Prop
  | space {c : Char} : c ∈ whiteSpace → Delimits c
  | openParen : Delimits '('
  | closeParen : Delimits ')'
  | quote : Delimits '\''
  | doubleQuote : Delimits '"'

theorem isDelimiter_iff {c : Char} : isDelimiter c = true ↔ Delimits c := by
  simp only [isDelimiter, Bool.or_eq_true, decide_eq_true_eq, isSpace_iff]
  constructor
  · rintro ((((hc | rfl) | rfl) | rfl) | rfl)
    · exact .space hc
    · exact .openParen
    · exact .closeParen
    · exact .quote
    · exact .doubleQuote
  · rintro (hc | _ | _ | _ | _)
    · exact .inl (.inl (.inl (.inl hc)))
    all_goals simp

/-- The text before the cursor ends in `typed`, in which there is no delimiter, and what is
before that is empty or ends in one. -/
structure Typed (front kept typed : List Char) : Prop where
  append : kept ++ typed = front
  undelimited : ∀ c ∈ typed, ¬ Delimits c
  delimited : kept = [] ∨ ∃ more d, kept = more ++ [d] ∧ Delimits d

theorem exists_typed_fragment (front back : List Char) :
    ∃ kept, Typed front kept (fragment (front ++ back) (Text.bytes front)) := by
  rw [fragment, before_append]
  refine ⟨(front.reverse.dropWhile fun c => !isDelimiter c).reverse, ?_, ?_, ?_⟩
  · rw [← List.reverse_append, List.takeWhile_append_dropWhile, List.reverse_reverse]
  · intro c hc
    rw [← isDelimiter_iff]
    simpa using List.mem_takeWhile_imp (List.mem_reverse.mp hc)
  · cases hrest : front.reverse.dropWhile fun c => !isDelimiter c with
    | nil => exact .inl rfl
    | cons d ds =>
        have hhead : d ∈ (front.reverse.dropWhile fun c => !isDelimiter c).head? := by
          rw [hrest]
          rfl
        have hd := Lexer.false_of_mem_head?_dropWhile hhead
        exact .inr ⟨ds.reverse, d, List.reverse_cons, isDelimiter_iff.mp (by simpa using hd)⟩

namespace Typed

variable {front kept kept' typed typed' mid : List Char}

/-- No more of the text is typed than what is behind the last delimiter. -/
theorem eq_nil_of_longer (h : Typed front kept (mid ++ typed))
    (h' : Typed front (kept ++ mid) typed) : mid = [] := by
  rcases List.eq_nil_or_concat mid with rfl | ⟨more, d, rfl⟩
  · rfl
  · rcases h'.delimited with hnil | ⟨before, d', hlast, hd⟩
    · simp at hnil
    · rw [List.concat_eq_append, ← List.append_assoc] at hlast
      obtain ⟨-, hdd⟩ := List.append_inj' hlast rfl
      obtain rfl := (List.cons.inj hdd).1
      exact absurd hd (h.undelimited d (by simp))

/-- There is one place only where the name that is being typed can begin. -/
theorem unique (h : Typed front kept typed) (h' : Typed front kept' typed') :
    kept = kept' ∧ typed = typed' := by
  rcases List.append_eq_append_iff.mp (h.append.trans h'.append.symm) with
    ⟨mid, rfl, rfl⟩ | ⟨mid, rfl, rfl⟩
  · obtain rfl := h.eq_nil_of_longer h'
    simp
  · obtain rfl := h'.eq_nil_of_longer h
    simp

end Typed

/-- The answer names the place where the name that is being typed begins, and the names that
can be used and begin in that way. -/
structure Completes (offered : String → Prop) (front : List Char)
    (answer : Nat × List String) : Prop where
  typed : ∃ kept typed, Typed front kept typed ∧ answer.1 = Text.bytes kept ∧
    (typed = [] → answer.2 = []) ∧
    (typed ≠ [] → ∀ name, name ∈ answer.2 ↔ typed <+: name.toList ∧ offered name)
  sorted : answer.2.Pairwise (· < ·)

end Prompt

open Prompt

/-- The names that are gathered from a frame are those whose lookup from there finds something,
the binding in the nearest frame that has one. So wherever between two characters the cursor
stands, the names offered in a frame are those that begin with what stands between the last
delimiter and the cursor, if there is anything, and that belong to a form or are found. -/
theorem completion_offers_usable {σ : State} (h : σ.Reachable) (i : FrameId) :
    (∀ name, (name ∈ σ.frames.names i ↔ ∃ v, σ.frames.lookup name i = some v) ∧
      ∀ v, σ.frames.lookup name i = some v ↔ σ.frames.Means name v i) ∧
    ∀ front back, Completes
      (fun name => (∃ form : Form, form.name = name) ∨ ∃ v, σ.frames.lookup name i = some v) front
      (complete σ.frames i (front ++ back) (Text.bytes front)) := by
  have hnames : ∀ name, name ∈ σ.frames.names i ↔ ∃ v, σ.frames.lookup name i = some v := by
    intro name
    rw [h.mem_names_iff]
    exact exists_congr fun v => h.lookup_eq_some_iff.symm
  refine ⟨fun name => ⟨hnames name, fun v => h.lookup_eq_some_iff⟩, fun front back => ?_⟩
  obtain ⟨kept, htyped⟩ := exists_typed_fragment front back
  generalize hfragment : fragment (front ++ back) (Text.bytes front) = typed at htyped
  simp only [complete, hfragment]
  cases typed with
  | nil =>
      have hkept : kept = front := by simpa using htyped.append
      exact ⟨⟨kept, [], htyped, hkept ▸ rfl, fun _ => rfl, absurd rfl⟩, .nil⟩
  | cons c cs =>
      have hstart : Text.bytes front - Text.bytes (c :: cs) = Text.bytes kept := by
        rw [← htyped.append, Text.bytes_append, Nat.add_sub_cancel]
      refine ⟨⟨kept, c :: cs, htyped, hstart, nofun, fun _ name => ?_⟩,
        (usable_sorted σ.frames i).filter _⟩
      rw [← hnames name, or_comm, ← mem_usable, and_comm, List.isEmpty_cons,
        if_neg Bool.false_ne_true, List.mem_filter, List.isPrefixOf_iff_prefix]

/-- In the session of `Session.madeThunk`, frame 1 binds `x` to true. So in the line `(cons x)`,
with the cursor in front of the closing bracket, `x` is offered for what begins at byte 6. -/
theorem completion_offers_usable_thunk :
    Session.madeThunk.state.Reachable ∧
      (∀ name, (name ∈ Session.madeThunk.state.frames.names 1 ↔
          ∃ v, Session.madeThunk.state.frames.lookup name 1 = some v) ∧
        ∀ v, Session.madeThunk.state.frames.lookup name 1 = some v ↔
          Session.madeThunk.state.frames.Means name v 1) ∧
      (∀ front back, Completes
        (fun name => (∃ form : Form, form.name = name) ∨
          ∃ v, Session.madeThunk.state.frames.lookup name 1 = some v) front
        (complete Session.madeThunk.state.frames 1 (front ++ back) (Text.bytes front))) ∧
      (complete Session.madeThunk.state.frames 1 "(cons x)".toList 7).1 = 6 ∧
      "x" ∈ (complete Session.madeThunk.state.frames 1 "(cons x)".toList 7).2 := by
  have hreachable := State.Reachable.of_reached Session.madeThunk_reached
  have hoffers := completion_offers_usable hreachable 1
  refine ⟨hreachable, hoffers.1, hoffers.2, ?_⟩
  have hx : Typed "(cons x".toList "(cons ".toList ['x'] :=
    ⟨rfl, by simp [← isDelimiter_iff, isDelimiter, Text.isSpace],
      .inr ⟨"(cons".toList, ' ', rfl, .space (by decide)⟩⟩
  obtain ⟨kept, typed, htyped, hstart, -, hnames⟩ := (hoffers.2 "(cons x".toList [')']).typed
  obtain ⟨rfl, rfl⟩ := htyped.unique hx
  have hbound := ((hoffers.1 "x").2 _).mpr (.here rfl rfl)
  exact ⟨hstart, (hnames (by simp) "x").mpr ⟨by decide, .inr ⟨_, hbound⟩⟩⟩

end DualScope
