import DualScope.Proofs.Likeness.Evaluator

/-!
# Spans are of no account

A text can be laid out anew, and comments can be added to it or taken away: as long as it has
the same tokens, up to where they stand, it does the same. Both texts are run from states that
agree up to spans, and up to the identities, which are numbers of things made and read so far
and need only stand for each other one to one.

This is the case of values that are alike in which all spans stand for each other. The values
that come out agree up to spans, and so do the errors, the frames, and all that was reported;
what was written to the standard output is the same.
-/

namespace DualScope

/-- All spans stand for each other, all names may occur, and what went out until the states
does not matter. -/
def Likeness.upToSpans (ids : Correspondence) (σ τ : State) : Likeness where
  span _ _ := True
  identity := ids.rel
  name _ := True
  log := σ.log
  log' := τ.log
  span_refl _ := trivial
  span_merge _ _ := trivial
  span_range _ _ := trivial
  identity_iff := ids.rel_iff
  identity_anonymous := ids.rel_anonymous
  name_begin := trivial
  name_quote := trivial

/-- The states have the same files and agree frame by frame up to spans, and the identities
that they are to give out next stand for each other. -/
structure State.AgreeUpToSpans (ids : Correspondence) (σ τ : State) : Prop where
  files : τ.files = σ.files
  made : ∀ k, ids.rel (.made (σ.made + k)) (.made (τ.made + k))
  texts : ∀ k index, ids.rel (.read (σ.texts + k) index) (.read (τ.texts + k) index)
  frames : σ.frames.Like (.upToSpans ids σ τ) τ.frames

namespace State

theorem AgreeUpToSpans.like {ids : Correspondence} {σ τ : State} (h : σ.AgreeUpToSpans ids τ) :
    σ.Like (.upToSpans ids σ τ) τ where
  files := h.files
  admits _ _ _ _ _ _ _ _ _ := trivial
  made := h.made
  texts := h.texts
  frames := h.frames
  log := ⟨[], [], rfl, rfl, .nil⟩

theorem agreeUpToSpans_self (σ : State) : σ.AgreeUpToSpans .same σ where
  files := rfl
  made _ := rfl
  texts _ _ := rfl
  frames i := by
    cases σ.frames.get? i with
    | none => exact .none
    | some f =>
        refine .some ⟨rfl, fun name _ => ?_⟩
        cases f.find? name with
        | none => exact .none
        | some v => exact .some (.refl (fun _ => trivial) (fun _ => rfl) v)

end State

section

variable {ids : Correspondence} {σ τ σ' τ' : State}

/-- What has gone out since has the same text on the standard output. -/
theorem State.Like.output (h : σ'.Like (.upToSpans ids σ τ) τ') :
    Event.textOf Event.output? (τ'.since τ) = Event.textOf Event.output? (σ'.since σ) :=
  Event.textOf_output_like (h.since rfl rfl)

end

/-- Tokens of the same kinds are alike up to spans. -/
theorem like_tokens {ids : Correspondence} {σ τ : State} {ts ts' : List Token}
    (h : ts'.map Token.kind = ts.map Token.kind) :
    List.Forall₂ (Token.Like (.upToSpans ids σ τ)) ts ts' := by
  induction ts generalizing ts' with
  | nil =>
      cases List.map_eq_nil_iff.mp h
      exact .nil
  | cons t ts ih =>
      obtain ⟨t', rest, rfl, hkind, hrest⟩ := List.map_eq_cons_iff.mp h
      exact .cons ⟨hkind, fun _ _ => trivial, trivial⟩ (ih hrest)

namespace Session

/-- With any budget, the two evaluations come to ends that are alike, or both are cut short. -/
theorem evalText_like {ids : Correspondence} {σ τ : State} (h : σ.AgreeUpToSpans ids τ)
    {text text' : String} {ts ts' : List Token} (htext : tokenize text = .ok ts)
    (htext' : tokenize text' = .ok ts') (hkinds : ts'.map Token.kind = ts.map Token.kind)
    (s : Settings) (budget : Nat) :
    (evalText s budget text σ).Like (.upToSpans ids σ τ)
      (LikeExcept (RunError.Like (.upToSpans ids σ τ)) (Value.Like (.upToSpans ids σ τ)))
      (evalText s budget text' τ) := by
  have hread : readProgram text = Reader.program ts := by
    rw [readProgram, lexemes, htext]
    rfl
  have hread' : readProgram text' = Reader.program ts' := by
    rw [readProgram, lexemes, htext']
    rfl
  refine Run.like_program (Eval.like_nested (fun _ _ _ => .cutShort) s budget 0) root ?_ σ τ h.like
  rw [hread, hread']
  exact Reader.like_program (like_tokens hkinds)

/-- Two texts that differ only in where their tokens stand do the same in states that agree up
to spans. -/
theorem evalText_up_to_spans {ids : Correspondence} {σ τ : State}
    (h : σ.AgreeUpToSpans ids τ) {text text' : String} {ts ts' : List Token}
    (htext : tokenize text = .ok ts) (htext' : tokenize text' = .ok ts')
    (hkinds : ts'.map Token.kind = ts.map Token.kind) (s : Settings) :
    ((∃ r, TextEnds s text σ r) ↔ ∃ r', TextEnds s text' τ r') ∧
      ∀ r r', TextEnds s text σ r → TextEnds s text' τ r' →
        r.Like (.upToSpans ids σ τ)
            (LikeExcept (RunError.Like (.upToSpans ids σ τ)) (Value.Like (.upToSpans ids σ τ))) r' ∧
          ∀ σ' τ', r.state? = some σ' → r'.state? = some τ' →
            Event.textOf Event.output? (τ'.since τ) = Event.textOf Event.output? (σ'.since σ) := by
  have hlike := evalText_like h htext htext' hkinds s
  refine ⟨⟨?_, ?_⟩, fun r r' hr hr' => ?_⟩
  · rintro ⟨_, hr, budget, rfl⟩
    exact ⟨_, mt (hlike budget).cutShort_iff.mpr hr, budget, rfl⟩
  · rintro ⟨_, hr', budget, rfl⟩
    exact ⟨_, mt (hlike budget).cutShort_iff.mp hr', budget, rfl⟩
  · obtain ⟨hne, budget, rfl⟩ := hr
    -- The one budget does for both, and there is no other end of the second text.
    obtain rfl := hr'.unique ⟨mt (hlike budget).cutShort_iff.mpr hne, budget, rfl⟩
    exact ⟨hlike budget, fun σ' τ' hσ' hτ' => ((hlike budget).state hσ' hτ').output⟩

section

/-- A session in which `x` is bound to a value that stood at `s`. -/
def boundAt (s : Span) : State :=
  { start fun _ => .error .notFound with
    frames := (start fun _ => .error .notFound).frames.bind root "x" (.boolean true s) }

theorem boundAt_agree (s s' : Span) : (boundAt s).AgreeUpToSpans .same (boundAt s') :=
  { State.agreeUpToSpans_self (start fun _ => .error .notFound) with
    frames := (State.agreeUpToSpans_self _).frames.bind root "x" (.boolean true trivial) }

/-- A text with the one expression `x` comes to the value of `x`. -/
theorem boundAt_ends {text : String} {span : Span}
    (h : tokenize text = .ok [⟨.symbol "x", span⟩]) (s : Span) :
    TextEnds ⟨.tailCall, 1⟩ text (boundAt s)
      (.value (.ok (.boolean true s)) { boundAt s with texts := (boundAt s).texts + 1 }) := by
  have hread : readProgram text = .ok [.symbol "x" span] := by
    rw [readProgram, lexemes, h]
    rfl
  have hlookup : (boundAt s).frames.lookup "x" root = some (.boolean true s) := by
    rw [Frames.lookup.eq_def]
    rfl
  have hlast : Run.lastValue (eval ⟨.tailCall, 1⟩ 1) root (.okay .none) [.symbol "x" span]
      { boundAt s with texts := (boundAt s).texts + 1 } =
        .value (.boolean true s) { boundAt s with texts := (boundAt s).texts + 1 } := by
    rw [Run.lastValue, Action.bind_apply, eval, Eval.nested_of_lt Nat.zero_lt_one,
      Eval.run_eq_bind, Action.bind_apply, Eval.step, Action.bind_apply, Action.lookup]
    dsimp only
    rw [hlookup]
    rfl
  refine ⟨by simp, 1, ?_⟩
  rw [evalText_eq hread]
  exact hlast ▸ rfl

theorem evalText_up_to_spans_commented :
    let σ := boundAt ⟨0, 2⟩
    let τ := boundAt ⟨5, 7⟩
    let r := Ending.value (.ok (.boolean true ⟨0, 2⟩)) { σ with texts := σ.texts + 1 }
    let r' := Ending.value (.ok (.boolean true ⟨5, 7⟩)) { τ with texts := τ.texts + 1 }
    σ.AgreeUpToSpans .same τ ∧
      tokenize "x" = .ok [⟨.symbol "x", ⟨0, 1⟩⟩] ∧
      tokenize " x ; as before" = .ok [⟨.symbol "x", ⟨1, 2⟩⟩] ∧
      TextEnds ⟨.tailCall, 1⟩ "x" σ r ∧ TextEnds ⟨.tailCall, 1⟩ " x ; as before" τ r' ∧
      r.Like (.upToSpans .same σ τ) (LikeExcept (RunError.Like (.upToSpans .same σ τ))
        (Value.Like (.upToSpans .same σ τ))) r' := by
  intro σ τ r r'
  have hagree : σ.AgreeUpToSpans .same τ := boundAt_agree _ _
  have htext : tokenize "x" = .ok [⟨.symbol "x", ⟨0, 1⟩⟩] := by decide +kernel
  have htext' : tokenize " x ; as before" = .ok [⟨.symbol "x", ⟨1, 2⟩⟩] := by decide +kernel
  have hr : TextEnds ⟨.tailCall, 1⟩ "x" σ r := boundAt_ends htext _
  have hr' : TextEnds ⟨.tailCall, 1⟩ " x ; as before" τ r' := boundAt_ends htext' _
  have hlike := (evalText_up_to_spans hagree htext htext' rfl ⟨.tailCall, 1⟩).2 r r' hr hr'
  exact ⟨hagree, htext, htext', hr, hr', hlike.1⟩

end

end Session

end DualScope
