import DualScope.Proofs.Ends
import DualScope.Proofs.Fitting.Calls

/-!
# Spans of a session stay in bounds

An evaluation may go on for as long as it likes and load what it likes: by induction on the
budget it keeps all spans in the bounds of what has been read. So does every text that a host
hands to a session. A closure may then carry the spans of one text into the errors of another
one, but not beyond the longest of them, and a report against a shorter one is put at its end.
-/

namespace DualScope

namespace Eval

variable {texts : List String}

theorem fits_nested_of_run {s : Settings} {budget level : Nat}
    (hrun : (run s budget (level + 1)).Fits texts) : (nested s budget level).Fits texts := by
  by_cases hlevel : level < s.limit
  · rw [nested_of_lt hlevel]
    exact hrun
  · rw [nested_of_le (Nat.le_of_not_lt hlevel)]
    exact fun _ _ _ _ => .fail trivial

/-- Expressions that fit are evaluated to values that fit, with every budget. -/
theorem fits_run (s : Settings) (budget level : Nat) : (run s budget level).Fits texts := by
  -- A step may evaluate one level deeper, with the smaller budget, and so may what it leaves.
  induction budget generalizing level with
  | zero => exact fun _ _ _ _ _ _ _ => trivial
  | succ budget ih =>
      intro n e i he
      have hnested := fits_nested_of_run (ih (level + 1))
      rw [run_eq_bind]
      refine (fits_step hnested i he).bind fun m next _ hnext => ?_
      cases next with
      | done v => exact .pure hnext
      | eval e j =>
          unfold onward
          cases s.strategy with
          | tailCall => exact ih level m e j hnext
          | recursive => exact hnested m e j hnext

theorem fits_nested (s : Settings) (budget level : Nat) : (nested s budget level).Fits texts :=
  fits_nested_of_run (fits_run s budget (level + 1))

end Eval

namespace Session

variable {files : Files} {texts : List String} {σ σ' : State}

/-- The host hands in the text, to be evaluated or to be run, and the session comes to an end
with it. -/
inductive Takes (text : String) (σ σ' : State) : Prop
  | evalText (s : Settings) (budget : Nat) :
    (evalText s budget text σ).state? = some σ' → Takes text σ σ'
  | runSource (s : Settings) (budget : Nat) (source : String) (echo : Bool) :
    (runSource s budget source text echo σ).state? = some σ' → Takes text σ σ'

/-- The session with these files has come to the state by the texts, the last of them first. -/
inductive Heard (files : Files) : List String → State → Prop
  | start : Heard files [] (start files)
  | next (text : String) {texts : List String} {σ σ' : State} :
    Heard files texts σ → Takes text σ σ' → Heard files (text :: texts) σ'

theorem snug_start (files : Files) : (start files).Snug [] := by
  refine ⟨fun i f hf => ?_, fun e older hsuffix => ?_⟩
  · rw [start, State.push, Frames.get?_push] at hf
    split at hf
    · cases hf
      intro b hb
      obtain ⟨p, -, rfl⟩ := List.mem_map.mp hb
      exact Span.fits_none _
    · cases hf
  · cases List.suffix_nil.mp hsuffix

/-- What is done with a text keeps the state snug, now that the text is among those read. -/
theorem snug_after {text : String} {x : Action α} {P : Nat → α → Prop} (h : σ.Snug texts)
    (hx : x.Fits (text :: texts) text.utf8ByteSize P) (hend : (x σ).state? = some σ') :
    σ.Onward σ' ∧ σ'.Snug (text :: texts) := by
  have hread : text.utf8ByteSize ≤ σ.reach (text :: texts) :=
    le_longestRead_of_text List.mem_cons_self _ _
  have hends := hx σ (h.more text) hread
  cases hr : x σ with
  | value a σ₁ =>
      rw [hr] at hends hend
      cases hend
      exact ⟨hends.1, hends.2.1⟩
  | error e σ₁ =>
      rw [hr] at hends hend
      cases hend
      exact ⟨hends.1, hends.2.1⟩
  | cutShort =>
      rw [hr] at hend
      cases hend

theorem fits_evalText (s : Settings) (budget : Nat) (text : String) :
    (evalText s budget text).Fits texts text.utf8ByteSize (Run.FitResult text) :=
  Run.fits_program (Eval.fits_nested s budget 0) root (Nat.le_refl _)

theorem fits_runSource (s : Settings) (budget : Nat) (source text : String) (echo : Bool) :
    (runSource s budget source text echo).Fits texts text.utf8ByteSize fun _ _ => True :=
  Run.fits_source (Eval.fits_nested s budget 0) root source echo (Nat.le_refl _)

theorem Takes.snug {text : String} (h : Takes text σ σ') (hσ : σ.Snug texts) :
    σ.Onward σ' ∧ σ'.Snug (text :: texts) := by
  cases h with
  | evalText s budget hend => exact snug_after hσ (fits_evalText s budget text) hend
  | runSource s budget source echo hend =>
      exact snug_after hσ (fits_runSource s budget source text echo) hend

theorem Heard.snug (h : Heard files texts σ) : σ.files = files ∧ σ.Snug texts := by
  induction h with
  | start => exact ⟨rfl, snug_start files⟩
  | next text _ htakes ih =>
      obtain ⟨honward, hsnug⟩ := htakes.snug ih.2
      exact ⟨honward.files.trans ih.1, hsnug⟩

/-- The error fits into what had been read when the log was `older`: of the texts handed in the
one that the session was at and those before it, and the files that had been loaded. -/
def FitThen (files : Files) (texts : List String) (older : List Event) (e : RunError) : Prop :=
  ∃ last earlier σ₀, last :: earlier <:+ texts ∧ Heard files earlier σ₀ ∧ σ₀.log <:+ older ∧
    e.Fits (longestRead (last :: earlier) files older)

theorem FitThen.next {older : List Event} {e : RunError} (h : FitThen files texts older e)
    (text : String) : FitThen files (text :: texts) older e := by
  obtain ⟨last, earlier, σ₀, hsuffix, hrest⟩ := h
  exact ⟨last, earlier, σ₀, hsuffix.trans (List.suffix_cons text texts), hrest⟩

theorem Heard.fitThen {source text : String} {e : RunError} {older : List Event}
    (h : Heard files texts σ) (hlog : .reported source text e :: older <:+ σ.log) :
    FitThen files texts older e := by
  induction h with
  | start => cases List.suffix_nil.mp hlog
  | @next handed texts σ σ' hheard htakes ih =>
      obtain ⟨hfiles, hsnug⟩ := hheard.snug
      obtain ⟨honward, hsnug'⟩ := htakes.snug hsnug
      -- The report is in the log before the text, or all of that log is behind it.
      rcases List.suffix_or_suffix_of_suffix hlog honward.log with hbefore | hafter
      · exact (ih hbefore).next handed
      · rcases List.suffix_cons_iff.mp hafter with heq | hafter
        · exact (ih (heq ▸ List.suffix_refl _)).next handed
        · have htold := hsnug'.told _ older hlog
          rw [honward.files, hfiles] at htold
          exact ⟨handed, texts, σ, List.suffix_refl _, hheard, hafter, htold.1⟩

/-- Whatever texts a host hands in one after another, all spans keep to what has been read. The
values that are bound anywhere in the session fit into the longest text. An error that was
reported fits into the longest text that had been read at that time, and the range of its report
into the text that it is reported against. The same holds of the answer to the next text that is
evaluated. -/
theorem spans_in_bounds (h : Heard files texts σ) :
    (∀ i f, σ.frames.get? i = some f → ∀ b ∈ f.bindings,
      b.2.Fits (longestRead texts files σ.log)) ∧
      (∀ source text e older, .reported source text e :: older <:+ σ.log →
        FitThen files texts older e ∧ (Report.of text e).range.Fits text.utf8ByteSize) ∧
      ∀ s budget text result σ', evalText s budget text σ = .value result σ' →
        match result with
        | .ok v => v.Fits (longestRead (text :: texts) files σ'.log)
        | .error e => e.Fits (longestRead (text :: texts) files σ'.log) ∧
            (Report.of text e).range.Fits text.utf8ByteSize := by
  refine ⟨?_, fun source text e older hlog => ⟨h.fitThen hlog, ?_⟩, ?_⟩
  · obtain ⟨rfl, hsnug⟩ := h.snug
    exact hsnug.bound
  · exact (h.snug.2.told _ older hlog).2
  intro s budget text result σ' hend
  obtain ⟨rfl, hsnug⟩ := h.snug
  have hread : text.utf8ByteSize ≤ σ.reach (text :: texts) :=
    le_longestRead_of_text List.mem_cons_self _ _
  have hfits : (evalText s budget text).Fits (text :: texts) text.utf8ByteSize
      (Run.FitResult text) := fits_evalText s budget text
  have hends := hfits σ (hsnug.more text) hread
  rw [hend] at hends
  obtain ⟨honward, -, m, -, hm, hresult⟩ := hends
  have hreach : m ≤ longestRead (text :: texts) σ.files σ'.log := by
    rw [← honward.files]
    exact hm
  cases result with
  | ok v => exact Value.Fits.mono hresult hreach
  | error e => exact ⟨hresult.1.mono hreach, hresult.2⟩

/-- The body of a procedure from a longer text has an error. It is called from a shorter one,
and the report is put at the end of that. -/
theorem spans_in_bounds_longer :
    let text := "(define (f) nowhere)"
    let call := "(f)"
    let e := RunError.eval (.unbound "nowhere" ⟨12, 19⟩)
    ∃ σ, Heard (fun _ => .error .notFound) [call, text] σ ∧
      σ.log = [.reported "input" call e] ∧ e.Fits 20 ∧
      (Report.of call e).range = ⟨3, 3⟩ ∧ (Report.of call e).range.Fits call.utf8ByteSize := by
  intro text call e
  have hruns : ((runSource ⟨.tailCall, 10⟩ 5 "input" text false
      (start fun _ => .error .notFound)).state?.bind fun σ =>
        (runSource ⟨.tailCall, 10⟩ 5 "input" call false σ).state?.map State.log) =
      some [.reported "input" call e] := by
    decide +kernel
  obtain ⟨σ, hσ, hruns⟩ := Option.bind_eq_some_iff.mp hruns
  obtain ⟨σ', hσ', hlog⟩ := Option.map_eq_some_iff.mp hruns
  have hheard : Heard (fun _ => .error .notFound) [call, text] σ' :=
    .next call (.next text .start (.runSource _ _ _ _ hσ)) (.runSource _ _ _ _ hσ')
  have hreported : [Event.reported "input" call e] <:+ σ'.log := ⟨[], hlog.symm⟩
  obtain ⟨⟨last, earlier, σ₀, hsuffix, -, -, he⟩, hrange⟩ :=
    (spans_in_bounds hheard).2.1 "input" call e [] hreported
  have hread : longestRead (last :: earlier) (fun _ => .error .notFound) [] ≤ 20 :=
    longestRead_mono hsuffix.subset (List.Subset.refl _) _
  exact ⟨σ', hheard, hlog, he.mono hread, by decide +kernel, hrange⟩

end Session

end DualScope
