import DualScope.Proofs.Viability
import DualScope.Proofs.Brackets

/-!
# The prompt and the reader

The prompt decides from the brackets and strings of an input whether to send it off or to wait for
more, without reading it. What it waits for is what the reader says is unfinished: the brackets
that are open for the prompt are those of the forms that the reader is in the middle of, which is
an invariant of one token, and the reader does not accept a closing bracket without an opening
one.

The exception are quote marks. They are no brackets, so an input that lacks nothing but what it
quotes is sent off.
-/

namespace DualScope

open Lexer
open Prompt (Brackets Verdict)
open Prompt.Brackets (Scan)

/-! ## Ends of lines -/

namespace Lexer

/-- Carriage returns stand only in front of line feeds. -/
def ReturnsEndLines (cs : List Char) : Prop :=
  ∀ rest ∈ cs.tails, rest.head? = some '\r' → rest.tail.head? = some '\n'

instance (cs : List Char) : Decidable (ReturnsEndLines cs) :=
  inferInstanceAs (Decidable (∀ _ ∈ _, _))

end Lexer

/-- Behind a comment the scan comes to the end of the line at once, so that it does not stray. -/
theorem Lexer.ReturnsEndLines.strays {text : List Char} (h : ReturnsEndLines text)
    (answer : Except LexError (List Token)) : Prompt.Brackets.Strays text answer fun _ cs =>
      ∀ c ∈ cs.takeWhile (· ≠ '\n'), c ∉ marks where
  behind {found i cs} hstage := by
    obtain ⟨front, hfront, -⟩ := hstage.comment.front
    cases hcs : cs.dropWhile inComment with
    | nil => exact fun c hc => nomatch hc
    | cons d ds =>
        have hd : inComment d = false := false_of_mem_head?_dropWhile (by rw [hcs]; rfl)
        rw [hcs] at hfront
        simp only [inComment, Bool.and_eq_false_iff, decide_eq_false_iff_not, not_not] at hd
        rcases hd with rfl | rfl
        · exact fun c hc => nomatch hc
        · obtain ⟨es, rfl⟩ : ∃ es, ds = '\n' :: es := by
            have hnext := h ('\r' :: ds) ((List.mem_tails _ _).mpr ⟨front, hfront.symm⟩) rfl
            cases ds with
            | nil => cases hnext
            | cons e es => exact ⟨es, by rw [Option.some.inj hnext]⟩
          intro c hc
          obtain rfl := List.mem_singleton.mp hc
          decide
  next {i c cs} hstray hc d hd := by
    refine hstray d ?_
    rw [List.takeWhile_cons_of_pos (by simp [hc])]
    exact List.mem_cons_of_mem c hd
  unmarked {found i c cs} _ hc hstray := by
    have hline : c ≠ '\n' := by
      rintro rfl
      exact absurd hc (by decide)
    refine hstray c ?_ hc
    rw [List.takeWhile_cons_of_pos (by simp [hline])]
    exact List.mem_cons_self

/-! ## Brackets of the reader -/

namespace Reader

/-- The opening bracket of a form. -/
def Open.bracket? : Open → Option Span
  | .quote _ => none
  | .list bracket _ => some bracket
  | .dotted bracket _ _ => some bracket

/-- The brackets that are open where the reader is, the last one first. -/
def Reading.brackets : Reading → List Span
  | .expecting forms => forms.filterMap Open.bracket?
  | .closing bracket _ _ forms => bracket :: forms.filterMap Open.bracket?

def Progress.brackets : Progress → List Span
  | .complete _ => []
  | .reading r => r.brackets

theorem deliver_brackets (v : Value) (forms : List Open) :
    (deliver v forms).brackets = forms.filterMap Open.bracket? := by
  induction forms generalizing v with
  | nil => rfl
  | cons o forms ih =>
      cases o with
      | quote mark => exact ih _
      | list bracket items => rfl
      | dotted bracket items dot => rfl

theorem brackets_ne_nil_of_deliver {v : Value} {forms : List Open} {r : Reading}
    (h : deliver v forms = .reading r) : r.brackets ≠ [] := by
  induction forms generalizing v with
  | nil => cases h
  | cons o forms ih =>
      cases o with
      | quote mark => exact ih h
      | list bracket items =>
          cases h
          exact List.cons_ne_nil _ _
      | dotted bracket items dot =>
          cases h
          exact List.cons_ne_nil _ _

/-- A reader that is in the middle of an expression, but not of a list, is behind a quote mark. -/
theorem quote_of_feed {r r' : Reading} {t : Token} (h : feed r t = .ok (.reading r'))
    (hbrackets : r'.brackets = []) : t.kind = .quote := by
  unfold feed at h
  split at h
  case h_6 =>
    cases h
    cases hbrackets
  case h_8 =>
    cases h
    cases hbrackets
  case h_9 hkind => exact hkind
  all_goals first
    | exact absurd hbrackets (brackets_ne_nil_of_deliver (Except.ok.inj h))
    | cases h

theorem exists_feed_of_step {st st' : List Value × Reading} {t : Token}
    (h : manyMachine.step st t = .ok st') :
    ∃ next, feed st.2 t = .ok next ∧ next.brackets = st'.2.brackets ∧
      (st'.2 = start ∨ next = .reading st'.2) := by
  simp only [manyMachine] at h
  split at h
  · cases h
  · next v hf =>
    cases h
    exact ⟨.complete v, hf, rfl, .inl rfl⟩
  · next r hf =>
    cases h
    exact ⟨.reading r, hf, rfl, .inr rfl⟩

end Reader

open Reader

/-- The scan has the brackets of the reader open, and has met no other closing ones. -/
def Tied (s : Scan) (brackets : List Span) : Prop :=
  s.unmatched = [] ∧ s.opened = brackets.map Span.start

theorem Tied.feed {s : Scan} {r : Reading} {t : Token} {next : Progress} (h : Tied s r.brackets)
    (hf : feed r t = .ok next) : Tied (s.token t) next.brackets := by
  obtain ⟨pairs, unmatched, opened, strings, mode⟩ := s
  obtain ⟨kind, span⟩ := t
  obtain ⟨hunmatched, hopened⟩ := h
  cases hunmatched
  cases hopened
  unfold Reader.feed at hf
  -- A closing bracket is accepted only in a list, whose own bracket is then the last one open.
  split at hf <;> cases hf
  all_goals
    next hkind =>
    cases hkind
    first
    | rw [deliver_brackets]
      exact ⟨rfl, rfl⟩
    | exact ⟨rfl, rfl⟩

theorem Tied.after {s : Scan} {st st' : List Value × Reading} {ts : List Token}
    (h : Tied s st.2.brackets) (hts : manyMachine.after st ts = .ok st') :
    Tied (s.tokens ts) st'.2.brackets := by
  induction ts generalizing s st with
  | nil =>
      cases hts
      exact h
  | cons t ts ih =>
      have hts : manyMachine.after st ([t] ++ ts) = .ok st' := hts
      obtain ⟨st₁, hstep, hts⟩ := Machine.exists_after_of_append hts
      rw [Machine.after_singleton] at hstep
      obtain ⟨next, hf, hnext, -⟩ := exists_feed_of_step hstep
      refine ih ?_ hts
      rw [← hnext]
      exact h.feed hf

/-! ## The verdict -/

namespace Prompt

theorem Verdict.of_eq {input : List Char} {s : Scan} {m : Prompt.Brackets.Mode}
    (hrun : Scan.start.run 0 input = s.inMode m) (hm : m.unclosed? = none)
    {brackets : List Span} (h : Tied s brackets) :
    Verdict.of input = if brackets = [] then .valid else .incomplete := by
  obtain ⟨hunmatched, hopened⟩ := h
  rw [Verdict.of, Brackets.of, hrun]
  simp only [Scan.finish, Scan.inMode, hm, hunmatched, hopened]
  cases brackets <;> simp

theorem Verdict.of_ne_valid {input : List Char}
    (h : (Scan.start.run 0 input).mode.unclosed? ≠ none) : Verdict.of input ≠ .valid := by
  have hin : (Brackets.of input).inString = true := Option.isSome_iff_ne_none.mpr h
  unfold Verdict.of
  dsimp only
  split
  · exact fun h => nomatch h
  · rw [hin]
    exact fun h => nomatch h

end Prompt

/-- What is open behind a token, the last bracket first. -/
def openAfter (opened : List Nat) (t : Token) : List Nat :=
  match t.kind with
  | .openParen => t.span.start :: opened
  | .closeParen => opened.tail
  | _ => opened

/-- The places of the brackets that the tokens leave open. -/
def openBrackets (ts : List Token) : List Nat :=
  ts.foldl openAfter []

theorem opened_token (s : Scan) (t : Token) : (s.token t).opened = openAfter s.opened t := by
  obtain ⟨pairs, unmatched, opened, strings, mode⟩ := s
  obtain ⟨kind, span⟩ := t
  cases kind <;> cases opened <;> rfl

theorem opened_tokens (ts : List Token) : (Scan.start.tokens ts).opened = openBrackets ts := by
  show (ts.foldl Scan.token Scan.start).opened = ts.foldl openAfter Scan.start.opened
  exact (List.foldl_hom Scan.opened fun s t => (opened_token s t).symm).symm

theorem readProgram_of_tokenize {text : String} {ts : List Token} (h : tokenize text = .ok ts) :
    readProgram text = manyMachine.run ([], start) ts := by
  rw [readProgram, lexemes, h, ← program_eq_run]
  rfl

section

variable {text : String} {ts : List Token} {st : List Value × Reading}

theorem tied_of_after (hst : manyMachine.after ([], start) ts = .ok st) :
    Tied (Scan.start.tokens ts) st.2.brackets :=
  Tied.after (s := Scan.start) ⟨rfl, rfl⟩ hst

/-- Unless there is a fault, the verdict tells whether the reader ends in the middle of a list. -/
theorem verdict_of_after (htokens : tokenize text = .ok ts) (h : ReturnsEndLines text.toList)
    (hst : manyMachine.after ([], start) ts = .ok st) :
    Verdict.of text.toList = if st.2.brackets = [] then .valid else .incomplete := by
  obtain ⟨m, hm, hrun⟩ := (h.strays _).run_eq htokens
  exact Verdict.of_eq hrun hm (tied_of_after hst)

/-- A text that ends outside of lists, but not behind an expression, ends with a quote mark. -/
theorem quote_of_after (hst : manyMachine.after ([], start) ts = .ok st) (hne : st.2 ≠ start)
    (hbrackets : st.2.brackets = []) : ts.getLast?.map Token.kind = some .quote := by
  obtain rfl | ⟨before, t, rfl⟩ := List.eq_nil_or_concat' ts
  · cases hst
    exact absurd rfl hne
  obtain ⟨st₁, -, hstep⟩ := Machine.exists_after_of_append hst
  rw [Machine.after_singleton] at hstep
  obtain ⟨next, hf, -, hnext⟩ := exists_feed_of_step hstep
  rw [hnext.resolve_left hne] at hf
  rw [List.getLast?_concat]
  exact congrArg some (quote_of_feed hf hbrackets)

theorem eq_start_of_stop {vs : List Value} (h : manyMachine.stop st = .ok vs) : st.2 = start := by
  simp only [manyMachine] at h
  split at h
  · assumption
  · cases h

theorem ne_start_of_stop {e : ReadError} (h : manyMachine.stop st = .error e) : st.2 ≠ start := by
  rintro hst
  simp only [manyMachine, if_pos hst] at h
  cases h

theorem brackets_eq_nil_iff (hst : manyMachine.after ([], start) ts = .ok st) :
    st.2.brackets = [] ↔ openBrackets ts = [] := by
  rw [← opened_tokens, (tied_of_after hst).2, List.map_eq_nil_iff]

theorem verdict_of_unterminated {span : Span} (h : ReturnsEndLines text.toList)
    (htokens : tokenize text = .error ⟨.unterminatedString, span⟩)
    (hstop : span.stop = Text.bytes text.toList) : Verdict.of text.toList ≠ .valid := by
  have hfollows := (h.strays _).follows_tokenize
  rw [htokens] at hfollows
  exact Verdict.of_ne_valid (hfollows rfl (hstop.trans (Nat.zero_add _).symm))

end

/-- On a text whose carriage returns stand in front of line feeds the prompt sends off what the
reader reads. It waits for more where the reader lacks something, unless all brackets are closed
and the text ends with a quote mark; and it does not send off a string that the end of the text
leaves open. -/
theorem verdict_agrees_with_reader {text : String} (h : ReturnsEndLines text.toList) :
    (∀ vs, readProgram text = .ok vs → Verdict.of text.toList = .valid) ∧
    (∀ wanted, readProgram text = .error (.unfinished wanted) →
      ∃ ts, tokenize text = .ok ts ∧
        Verdict.of text.toList =
          if openBrackets ts = [] ∧ ts.getLast?.map Token.kind = some .quote then .valid
          else .incomplete) ∧
    ∀ span, tokenize text = .error ⟨.unterminatedString, span⟩ →
      span.stop = Text.bytes text.toList → Verdict.of text.toList ≠ .valid := by
  cases htokens : tokenize text with
  | error e =>
      have hread : readProgram text = .error (.lexical e) := by
        rw [readProgram, lexemes, htokens]
        rfl
      rw [hread]
      refine ⟨(by rintro _ ⟨⟩), (by rintro _ ⟨⟩), ?_⟩
      rintro span ⟨⟩ hstop
      exact verdict_of_unterminated h htokens hstop
  | ok ts =>
      rw [readProgram_of_tokenize htokens]
      refine ⟨fun vs hread => ?_, fun wanted hread => ⟨ts, rfl, ?_⟩, (by rintro _ ⟨⟩)⟩
      · obtain ⟨st, hst, hstop⟩ := Machine.exists_after_of_ok hread
        rw [verdict_of_after htokens h hst, eq_start_of_stop hstop]
        rfl
      · obtain ⟨st, hst, hstop⟩ := manyMachine_sound.exists_after_of_unfinished hread
        rw [verdict_of_after htokens h hst]
        by_cases hbrackets : st.2.brackets = []
        · have hlast := quote_of_after hst (ne_start_of_stop hstop) hbrackets
          rw [if_pos hbrackets, if_pos ⟨(brackets_eq_nil_iff hst).mp hbrackets, hlast⟩]
        · have hopen := fun h => hbrackets ((brackets_eq_nil_iff hst).mpr h)
          rw [if_neg hbrackets, if_neg fun h => hopen h.1]

/-- A list with a bracket in a comment, a list and a quotation that lack an end, and a string
that lacks one. -/
theorem verdict_agrees_with_reader_lines :
    Verdict.of "(a ; )\r\n)".toList = .valid ∧ Verdict.of "(a\r\n'".toList = .incomplete ∧
      Verdict.of "a\r\n'".toList = .valid ∧ Verdict.of "a\r\n\")".toList ≠ .valid := by
  have hread : ReturnsEndLines "(a ; )\r\n)".toList := by decide +kernel
  have hlist : ReturnsEndLines "(a\r\n'".toList := by decide +kernel
  have hquotation : ReturnsEndLines "a\r\n'".toList := by decide +kernel
  have hstring : ReturnsEndLines "a\r\n\")".toList := by decide +kernel
  refine ⟨(verdict_agrees_with_reader hread).1 _ (by cbv), ?_, ?_, ?_⟩
  · have htokens : tokenize "(a\r\n'" =
        .ok [⟨.openParen, ⟨0, 1⟩⟩, ⟨.symbol "a", ⟨1, 2⟩⟩, ⟨.quote, ⟨4, 5⟩⟩] := by cbv
    obtain ⟨ts, hts, hverdict⟩ := (verdict_agrees_with_reader hlist).2.1 .expression (by cbv)
    cases htokens.symm.trans hts
    exact hverdict.trans (if_neg (by decide))
  · have htokens : tokenize "a\r\n'" = .ok [⟨.symbol "a", ⟨0, 1⟩⟩, ⟨.quote, ⟨3, 4⟩⟩] := by cbv
    obtain ⟨ts, hts, hverdict⟩ := (verdict_agrees_with_reader hquotation).2.1 .expression (by cbv)
    cases htokens.symm.trans hts
    exact hverdict.trans (if_pos (by decide))
  · exact (verdict_agrees_with_reader hstring).2.2 ⟨3, 5⟩ (by cbv) (by decide)

end DualScope
