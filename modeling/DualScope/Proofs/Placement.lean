import DualScope.Proofs.Ends
import DualScope.Proofs.Faults

/-!
# Where reports of the reader point

A text with a fault is reported with the span of the fault, and a span is one of bytes. The
library that draws the report counts characters. Only this is assumed of it, and that a remark
needs characters of the text to stand at. No character takes less than a byte, so the number of the
first byte is at least that of the character that it belongs to, and it is the same only where
all characters in front take one byte each. Elsewhere the report points behind the error, or, if
the span then goes beyond the text, it has no remark.

So a report of the reader is right in some texts and wrong in others, and which these are is
said here: the characters in front of the fault are to be of one byte, and the text behind it is
to be long enough for the bytes that the fault itself has more than characters.
-/

namespace DualScope

/-! ## Characters and bytes -/

namespace Text

theorem length_le_bytes (cs : List Char) : cs.length ≤ bytes cs := by
  induction cs with
  | nil => exact Nat.le_refl 0
  | cons c cs ih =>
      have hsize := c.utf8Size_pos
      rw [List.length_cons, bytes_cons]
      omega

/-- There are as many bytes as characters if each of them takes one. -/
theorem bytes_eq_length_iff {cs : List Char} :
    bytes cs = cs.length ↔ ∀ c ∈ cs, c.utf8Size = 1 := by
  induction cs with
  | nil => simp
  | cons c cs ih =>
      have hsize := c.utf8Size_pos
      have hcs := length_le_bytes cs
      rw [List.forall_mem_cons, ← ih, List.length_cons, bytes_cons]
      omega

/-! ## Places of characters -/

/-- The place is on a line above, or on the same line and further to the left. -/
def Place.Before (p q : Place) : Prop :=
  p.line < q.line ∨ p.line = q.line ∧ p.column < q.column

theorem Place.Before.trans {p q r : Place} (h : p.Before q) (h' : q.Before r) : p.Before r := by
  unfold Place.Before at h h' ⊢
  omega

theorem Place.Before.ne {p q : Place} (h : p.Before q) : p ≠ q := by
  rintro rfl
  unfold Place.Before at h
  omega

theorem before_placeFrom (here : Place) {offset : Nat} {cs : List Char} (hpos : 0 < offset)
    (h : offset ≤ cs.length) : here.Before (placeFrom here offset cs) := by
  induction cs generalizing here offset with
  | nil => exact absurd h (Nat.not_le.mpr hpos)
  | cons c cs ih =>
      obtain ⟨offset, rfl⟩ := Nat.exists_eq_add_one.mpr hpos
      have hmoved : here.Before
          (if endsLine c cs && !cs.isEmpty then ⟨here.line + 1, 1⟩
            else ⟨here.line, here.column + 1⟩) := by
        split
        · exact .inl (Nat.lt_succ_self _)
        · exact .inr ⟨rfl, Nat.lt_succ_self _⟩
      rw [placeFrom]
      cases Nat.eq_zero_or_pos offset with
      | inl hzero =>
          rw [hzero, placeFrom]
          exact hmoved
      | inr hpos' => exact hmoved.trans (ih _ hpos' (Nat.le_of_succ_le_succ h))

/-- A character further on in the text has a place further on. -/
theorem placeFrom_before {a b : Nat} {cs : List Char} (hab : a < b) (hb : b ≤ cs.length)
    (here : Place) : (placeFrom here a cs).Before (placeFrom here b cs) := by
  induction a generalizing here b cs with
  | zero => exact before_placeFrom here hab hb
  | succ a ih =>
      obtain ⟨b, rfl⟩ := Nat.exists_eq_add_one.mpr (Nat.zero_lt_of_lt hab)
      cases cs with
      | nil => exact absurd hb (Nat.not_le.mpr (Nat.succ_pos b))
      | cons c cs =>
          rw [placeFrom, placeFrom]
          exact ih (Nat.lt_of_succ_lt_succ hab) (Nat.le_of_succ_le_succ hb) _

/-- No two characters of a text have the same place. -/
theorem place_inj {a b : Nat} {cs : List Char} (ha : a ≤ cs.length) (hb : b ≤ cs.length)
    (h : place cs a = place cs b) : a = b := by
  rcases Nat.lt_trichotomy a b with hlt | heq | hgt
  · exact absurd h (placeFrom_before hlt hb .first).ne
  · exact heq
  · exact absurd h.symm (placeFrom_before hgt ha .first).ne

end Text

/-! ## What is drawn of a report -/

open Text (bytes)

/-- A library that draws reports: where in a text it says that a report is, and the remark that
it puts there. -/
structure Report.Library where
  place? : Report → String → Option Text.Place
  label? : Report → String → Option String

/-- What is relied on of a library that draws reports: it takes the two numbers of a range for
those of characters. -/
structure Report.Library.CountsCharacters (lib : Library) : Prop where
  /-- A range of characters of the text is drawn at the first of them, with its remark. -/
  drawn : ∀ {r : Report} {text : String}, r.range.start < r.range.stop →
    r.range.stop ≤ text.length →
      lib.place? r text = some (Text.place text.toList r.range.start) ∧
        lib.label? r text = some r.label
  /-- Where the text has no more characters there is no remark. -/
  beyond : ∀ {r : Report} {text : String}, r.range.start < r.range.stop →
    text.length < r.range.stop → lib.label? r text = none

/-- The library that the reports of the program are drawn by. -/
def Report.Library.standard : Library := ⟨Report.place?, Report.label?⟩

theorem Report.isDrawable_iff {r : Report} {n : Nat} (h : r.range.start < r.range.stop) :
    r.isDrawable n = true ↔ r.range.start ≤ n ∧ r.range.stop ≤ n + 1 := by
  simp only [isDrawable, h, decide_true, Bool.true_and, Bool.and_eq_true, decide_eq_true_eq,
    Bool.not_eq_true', decide_eq_false_iff_not]
  omega

theorem Report.Library.standard_countsCharacters : standard.CountsCharacters where
  drawn {r text} hordered hstop := by
    have hdrawable : r.isDrawable text.length = true := by
      rw [isDrawable_iff hordered]
      omega
    have hwithin : r.range.stop ≠ text.length + 1 := by omega
    simp [standard, Report.place?, Report.label?, hdrawable, hwithin]
  beyond {r text} hordered hstop := by
    simp only [standard, Report.label?, ite_eq_left_iff, Bool.or_eq_true, Bool.not_eq_true',
      ← Bool.not_eq_true, isDrawable_iff hordered, Bool.and_eq_true, decide_eq_true_eq]
    intro hlabel
    omega

/-- The library draws the report, with its remark, at the character in front of which there are
`before`. -/
def Report.PointsBehind (lib : Library) (r : Report) (text : String) (before : List Char) : Prop :=
  lib.place? r text = some (Text.place text.toList before.length) ∧
    lib.label? r text = some r.label

/-- A report points at the characters that its range cuts out if in front of them there is no
character of more than one byte, and if the range, taken for characters, is within the text. -/
theorem Report.pointsBehind_iff {lib : Library} (hlib : lib.CountsCharacters) {r : Report}
    {text : String} {before part : List Char} (h : r.range.Cuts text before part)
    (hpart : part ≠ []) :
    r.PointsBehind lib text before ↔
      (∀ c ∈ before, c.utf8Size = 1) ∧ r.range.stop ≤ text.length := by
  obtain ⟨⟨after, htext⟩, hrange⟩ := h
  have htaken := Lexer.bytes_pos hpart
  have hlength : before.length ≤ text.toList.length := by
    rw [htext, List.length_append]
    exact Nat.le_add_right _ _
  have hstart : r.range.start = bytes before := by rw [hrange]
  have hordered : r.range.start < r.range.stop := by
    rw [hrange]
    exact Nat.lt_add_of_pos_right htaken
  rw [PointsBehind, ← Text.bytes_eq_length_iff]
  constructor
  · rintro ⟨hplace, hlabel⟩
    have hstop : r.range.stop ≤ text.length := by
      refine Nat.le_of_not_lt fun hbeyond => ?_
      rw [hlib.beyond hordered hbeyond] at hlabel
      cases hlabel
    rw [(hlib.drawn hordered hstop).1, hstart, Option.some.injEq] at hplace
    refine ⟨Text.place_inj ?_ hlength hplace, hstop⟩
    rw [String.length_toList]
    omega
  · rintro ⟨hbytes, hstop⟩
    rw [← hbytes, ← hstart]
    exact hlib.drawn hordered hstop

/-! ## Runs of a text that cannot be read -/

namespace Run

variable {eval : Evaluation} {i : FrameId} {source text : String} {echo : Bool}

/-- To evaluate expressions one after another is no error, for their errors are reported. -/
theorem expressions_ne_error (errors : Nat) (es : List Value) (σ σ' : State) (e : EvalError) :
    expressions eval i source text echo errors es σ ≠ .error e σ' := by
  induction es generalizing errors σ with
  | nil => exact fun h => by cases h
  | cons v es ih =>
      rw [expressions, Action.bind_apply, Action.attempt_apply]
      cases eval v i σ with
      | value w σ₁ =>
          dsimp only
          split
          · exact ih _ _
          · exact ih _ _
      | error err σ₁ => exact ih _ _
      | cutShort => exact fun h => by cases h

/-- The fault of a text is reported last. -/
theorem source_reports_fault {e : ReadError} (hread : readProgram text = .error e) {σ σ' : State}
    (hend : (Run.source eval i source text echo σ).state? = some σ') :
    ∃ older, σ'.log = .reported source text (.read e) :: older := by
  unfold Run.source at hend
  rcases readProgram_eq_error_iff.mp hread with hlex | ⟨ts, htokens, hfault⟩
  · rw [hlex] at hend
    cases hend
    exact ⟨σ.log, rfl⟩
  · rw [htokens] at hend
    dsimp only at hend
    rw [Action.bind_apply] at hend
    dsimp only [enter] at hend
    rw [Action.bind_apply, hfault] at hend
    cases hrun : expressions eval i source text echo 0 _ _ with
    | value n σ₁ =>
        rw [hrun] at hend
        cases hend
        exact ⟨σ₁.log, rfl⟩
    | error err σ₁ => exact absurd hrun (expressions_ne_error _ _ _ _ _)
    | cutShort =>
        rw [hrun] at hend
        cases hend

end Run

/-- A text with a fault at characters of it is reported last of all, with the place of the
fault. Drawn by a library that counts characters, the report points at these characters, and has
its remark, if and only if all characters in front of them take one byte each, and the bytes up
to the end of the fault are no more than the characters of the text. -/
theorem read_report_place {lib : Report.Library} (hlib : lib.CountsCharacters) (st : Settings)
    (budget : Nat) (source : String) {text : String}
    {e : ReadError} {s : Span} (hread : readProgram text = .error e) (hs : e.span? = some s)
    (echo : Bool) {σ σ' : State}
    (hend : (Session.runSource st budget source text echo σ).state? = some σ') :
    (∃ older, σ'.log = .reported source text (.read e) :: older) ∧
      ∃ before part, part ≠ [] ∧ s.Cuts text before part ∧
        ((Report.of text (.read e)).PointsBehind lib text before ↔
          (∀ c ∈ before, c.utf8Size = 1) ∧ s.stop ≤ text.length) := by
  refine ⟨Run.source_reports_fault hread hend, ?_⟩
  obtain ⟨before, part, hpart, hcuts⟩ := ReadError.cuts hread hs
  have hrange : (Report.of text (.read e)).range = s := by
    simp only [Report.of, hs]
  refine ⟨before, part, hpart, hcuts, ?_⟩
  have hpoints := Report.pointsBehind_iff hlib (r := Report.of text (.read e))
    (by rw [hrange]; exact hcuts) hpart
  rw [hrange] at hpoints
  exact hpoints

/-- A session without files. -/
def emptyDirectory : State :=
  Session.start fun _ => .error .notFound

/-- The character that takes two bytes is behind the bracket here, in a comment. -/
theorem read_report_place_comment :
    let text := " ) ; é"
    let e := ReadError.unexpected ⟨.closeParen, ⟨1, 2⟩⟩ .expression
    let run := Session.runSource ⟨.tailCall, 10⟩ 1 "input" text false emptyDirectory
    (∃ σ', run.state? = some σ' ∧ ∃ older, σ'.log = .reported "input" text (.read e) :: older) ∧
      ∃ before part, part ≠ [] ∧ (⟨1, 2⟩ : Span).Cuts text before part ∧
        ((Report.of text (.read e)).PointsBehind .standard text before ↔
          (∀ c ∈ before, c.utf8Size = 1) ∧ 2 ≤ text.length) := by
  intro text e run
  have hread : readProgram text = .error e := by decide +kernel
  have hends : run.state?.isSome := by decide +kernel
  obtain ⟨σ', hσ'⟩ := Option.isSome_iff_exists.mp hends
  obtain ⟨hlog, hplace⟩ := read_report_place Report.Library.standard_countsCharacters
    ⟨.tailCall, 10⟩ 1 "input" hread rfl false hσ'
  exact ⟨⟨σ', hσ', hlog⟩, hplace⟩

/-- Behind a string with a character of two bytes, a bracket that is the fifth character of the
text is reported at the sixth, without a remark. -/
theorem read_report_misplaced :
    let text := "\"é\" )"
    let before := ['"', 'é', '"', ' ']
    let e := ReadError.unexpected ⟨.closeParen, ⟨5, 6⟩⟩ .expression
    let r := Report.of text (.read e)
    let run := Session.runSource ⟨.tailCall, 10⟩ 1 "input" text false emptyDirectory
    run.state?.map State.log = some [.reported "input" text (.read e)] ∧
      e.span? = some ⟨5, 6⟩ ∧ (⟨5, 6⟩ : Span).Cuts text before [')'] ∧
      Text.place text.toList before.length = ⟨1, 5⟩ ∧ r.place? text = some ⟨1, 6⟩ ∧
      r.label = "expected an expression" ∧ r.label? text = none ∧
      ¬ r.PointsBehind .standard text before := by
  intro text before e r run
  have hplace : r.place? text = some ⟨1, 6⟩ := by decide +kernel
  have hlabel : r.label? text = none := by decide +kernel
  refine ⟨by decide +kernel, rfl, ⟨⟨[], by decide +kernel⟩, by decide +kernel⟩, by decide +kernel,
    hplace, by decide +kernel, hlabel, ?_⟩
  rintro ⟨-, hremark⟩
  cases hlabel.symm.trans hremark

end DualScope
