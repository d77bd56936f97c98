import DualScope.Proofs.Layout
import DualScope.Prompt.Brackets
import Mathlib

/-!
# The brackets of a line and its tokens

The prompt finds the brackets and the strings of a line without the lexer. What it ought to find
is said here by the tokens: `Scan.token` puts the start of a bracket, or the span of a string,
where the scan would put it. The invariant is that the scan of the characters behind a token is
the scan of the tokens up to it.

There is one place at which the two are not abreast. A carriage return ends a comment for the
lexer but not for the scan, which goes on as in a comment up to the next line feed. Until then
the tokens are lost to the scan, which is no harm as long as no bracket and no quote mark of a
string is among them. That it does no harm is what `Strays` asks of a text. Texts of two kinds are
shown elsewhere to be so: those in which no bracket and no string is where the scan strays, and
those whose carriage returns stand in front of line feeds.

A string that is not closed at the end of the text is seen by both: the lexer stops there for
the lack of a quote, and the scan ends in the middle of a string.
-/

namespace DualScope

open Lexer

namespace Lexer

/-- The characters that a scan for brackets and strings looks for. -/
def marks : List Char := ['(', ')', '"']

theorem unmarked_of_isBlank {c : Char} (hc : isBlank c = true) : c ∉ marks ∧ c ≠ ';' := by
  simp only [isBlank, Bool.or_eq_true, decide_eq_true_eq] at hc
  obtain ((rfl | rfl) | rfl) | rfl := hc <;> decide

theorem unmarked_of_inSymbol {c : Char} (hc : inSymbol c = true) :
    c ∉ marks ∧ c ≠ ';' ∧ c ≠ '\n' := by
  have hopen : c ≠ '(' := ne_of_inSymbol hc (by decide)
  have hclose : c ≠ ')' := ne_of_inSymbol hc (by decide)
  have hquote : c ≠ '"' := ne_of_inSymbol hc (by decide)
  refine ⟨?_, ne_of_inSymbol hc (by decide), ne_of_inSymbol hc (by decide)⟩
  simp [marks, hopen, hclose, hquote]

end Lexer

namespace Prompt.Brackets

/-! ## The scan in parts -/

theorem Scan.run_append (s : Scan) (i : Nat) (as bs : List Char) :
    s.run i (as ++ bs) = (s.run i as).run (i + Text.bytes as) bs := by
  induction as generalizing s i with
  | nil => rfl
  | cons a as ih =>
      rw [List.cons_append, run, run, ih, Text.bytes_cons, Nat.add_assoc]

theorem Scan.run_of_step_eq {s : Scan} {cs : List Char} (h : ∀ c ∈ cs, ∀ i, s.step i c = s)
    (i : Nat) : s.run i cs = s := by
  induction cs generalizing i with
  | nil => rfl
  | cons c cs ih =>
      rw [run, h c List.mem_cons_self]
      exact ih (fun d hd => h d (List.mem_cons_of_mem c hd)) _

/-- In a string, the scan follows the lexer. -/
theorem Scan.run_inside {cs : List Char} (h : Inside cs) {s : Scan} {start : Nat}
    (hs : s.mode = .string start false) (i : Nat) : s.run i cs = s := by
  obtain ⟨pairs, unmatched, opened, strings, mode⟩ := s
  cases hs
  -- Behind a backslash the mode is another one, but an escape leads back with its second character.
  induction h generalizing i with
  | nil => rfl
  | plain hquote hbackslash _ ih =>
      simp only [run, step, if_neg hbackslash, if_neg hquote]
      exact ih _
  | escape _ _ ih =>
      simp only [run, step, if_pos]
      exact ih _

/-! ## The scan of tokens -/

/-- The same findings in the middle of something else. -/
def Scan.inMode (s : Scan) (m : Mode) : Scan :=
  { s with mode := m }

/-- What a scan has to find of a token. -/
def Scan.token (s : Scan) (t : Token) : Scan :=
  match t.kind with
  | .openParen => { s with opened := t.span.start :: s.opened }
  | .closeParen =>
    match s.opened with
    | partner :: rest => { s with opened := rest, pairs := (partner, t.span.start) :: s.pairs }
    | [] => { s with unmatched := t.span.start :: s.unmatched }
  | .string _ => { s with strings := t.span :: s.strings }
  | _ => s

def Scan.tokens (s : Scan) (ts : List Token) : Scan :=
  ts.foldl Scan.token s

theorem Scan.inMode_mode (s : Scan) : s.inMode s.mode = s := rfl

theorem Scan.token_inMode (s : Scan) (m : Mode) (t : Token) :
    (s.inMode m).token t = (s.token t).inMode m := by
  obtain ⟨pairs, unmatched, opened, strings, mode⟩ := s
  obtain ⟨kind, span⟩ := t
  cases kind <;> cases opened <;> rfl

theorem Scan.tokens_inMode (s : Scan) (m : Mode) (ts : List Token) :
    (s.inMode m).tokens ts = (s.tokens ts).inMode m := by
  induction ts generalizing s with
  | nil => rfl
  | cons t ts ih =>
      show ((s.inMode m).token t).tokens ts = _
      rw [token_inMode, ih]
      rfl

theorem Scan.token_mode (s : Scan) (t : Token) : (s.token t).mode = s.mode := by
  unfold token
  repeat' split
  all_goals rfl

/-- In a literal, the scan is in a string. -/
theorem Scan.run_literal {s : Scan} (hs : s.mode = .code) {inner : List Char}
    (h : Inside inner) (i : Nat) :
    s.run i ('"' :: inner) = s.inMode (.string i false) := by
  have hstep : s.step i '"' = s.inMode (.string i false) := by simp [step, hs, inMode]
  rw [run, hstep]
  exact run_inside h rfl _

theorem Scan.run_closed {s : Scan} (hs : s.mode = .code) {inner : List Char}
    (h : Inside inner) (str : String) (i : Nat) :
    s.run i ('"' :: (inner ++ ['"'])) =
      s.token ⟨.string str, ⟨i, i + Text.bytes ('"' :: (inner ++ ['"']))⟩⟩ := by
  have hquote : Text.bytes ['"'] = 1 := rfl
  rw [← List.cons_append, run_append, run_literal hs h, Text.bytes_append, hquote,
    ← Nat.add_assoc]
  obtain ⟨pairs, unmatched, opened, strings, mode⟩ := s
  cases hs
  rfl

theorem Scan.token_classify (s : Scan) (run : List Char) (span : Span) :
    s.token ⟨classify run, span⟩ = s := by
  unfold classify
  repeat' split
  all_goals rfl

/-! ## Abreast of the lexer -/

/-- Where the scan may be in a comment that is over for the lexer: it strays behind a comment and
up to the end of the line, and no mark that the lexer comes to is among what it misses. -/
structure Strays (text : List Char) (answer : Except LexError (List Token))
    (stray : Nat → List Char → Prop) : Prop where
  behind : ∀ {found i cs}, Stage text answer found i (';' :: cs) →
    stray (i + Text.bytes (';' :: cs.takeWhile inComment)) (cs.dropWhile inComment)
  next : ∀ {i c cs}, stray i (c :: cs) → c ≠ '\n' → stray (i + c.utf8Size) cs
  unmarked : ∀ {found i c cs}, Stage text answer found i (c :: cs) → c ∈ marks →
    ¬ stray i (c :: cs)

/-- The scan is not in a string, and if it is in a comment, it may stray there. The lexer is in
neither of them. -/
def Abreast (stray : Nat → List Char → Prop) : Mode → Nat → List Char → Prop
  | .code, _, _ => True
  | .comment, i, cs => stray i cs
  | .string .., _, _ => False

namespace Abreast

variable {stray : Nat → List Char → Prop} {text : List Char}
  {answer : Except LexError (List Token)} {found : List Token} {s : Scan} {i : Nat} {c : Char}
  {cs : List Char}

theorem unclosed? {m : Mode} (h : Abreast stray m i cs) : m.unclosed? = none := by
  cases m with
  | string => cases h
  | _ => rfl

variable (hstray : Strays text answer stray)

include hstray

/-- At a mark the scan is not in a comment. -/
theorem code_of_mem_marks (h : Abreast stray s.mode i (c :: cs))
    (hstage : Stage text answer found i (c :: cs)) (hc : c ∈ marks) : s.mode = .code := by
  cases hmode : s.mode with
  | code => rfl
  | string => rw [hmode] at h; cases h
  | comment =>
      rw [hmode] at h
      exact absurd h (hstray.unmarked hstage hc)

/-- A character that is neither a mark nor the start of a comment is of interest only if it ends
a comment. -/
theorem plain (h : Abreast stray s.mode i (c :: cs)) (hmark : c ∉ marks) (hcomment : c ≠ ';') :
    ∃ m, s.step i c = s.inMode m ∧ Abreast stray m (i + c.utf8Size) cs ∧
      (c ≠ '\n' → m = s.mode) := by
  simp only [marks, List.mem_cons, List.not_mem_nil, or_false, not_or] at hmark
  obtain ⟨hopen, hclose, hquote⟩ := hmark
  cases hmode : s.mode with
  | code =>
      refine ⟨.code, ?_, trivial, fun _ => rfl⟩
      simp only [Scan.step, hmode, if_neg hquote, if_neg hcomment, if_neg hopen, if_neg hclose]
      rw [← hmode, Scan.inMode_mode]
  | string => rw [hmode] at h; cases h
  | comment =>
      rw [hmode] at h
      by_cases hline : c = '\n'
      · exact ⟨.code, by simp [Scan.step, hmode, hline, Scan.inMode], trivial, absurd hline⟩
      · refine ⟨.comment, ?_, hstray.next h hline, fun _ => rfl⟩
        simp only [Scan.step, hmode, if_neg hline]
        rw [← hmode, Scan.inMode_mode]

/-- A row of such characters on one line goes by unnoticed. -/
theorem run_plain {ds : List Char} (h : Abreast stray s.mode i (cs ++ ds))
    (hcs : ∀ c ∈ cs, c ∉ marks ∧ c ≠ ';' ∧ c ≠ '\n') :
    s.run i cs = s ∧ Abreast stray s.mode (i + Text.bytes cs) ds := by
  induction cs generalizing i with
  | nil => exact ⟨rfl, h⟩
  | cons c cs ih =>
      obtain ⟨hmark, hcomment, hline⟩ := hcs c List.mem_cons_self
      obtain ⟨m, hstep, hnext, hm⟩ := plain hstray h hmark hcomment
      rw [hm hline] at hstep hnext
      rw [Scan.run, hstep, Scan.inMode_mode, Text.bytes_cons, ← Nat.add_assoc]
      exact ih hnext fun d hd => hcs d (List.mem_cons_of_mem c hd)

/-- Behind what the lexer takes for a comment, the scan is in a comment still. -/
theorem comment (h : Abreast stray s.mode i (';' :: cs))
    (hstage : Stage text answer found i (';' :: cs)) :
    s.run i (';' :: cs.takeWhile inComment) = s.inMode .comment ∧
      Abreast stray .comment (i + Text.bytes (';' :: cs.takeWhile inComment))
        (cs.dropWhile inComment) := by
  have hstep : s.step i ';' = s.inMode .comment := by
    cases hmode : s.mode with
    | code => simp [Scan.step, hmode, Scan.inMode]
    | comment =>
        simp only [Scan.step, hmode]
        rw [← hmode]
        rfl
    | string => rw [hmode] at h; cases h
  refine ⟨?_, hstray.behind hstage⟩
  rw [Scan.run, hstep]
  refine Scan.run_of_step_eq (fun c hc j => ?_) _
  have hline : c ≠ '\n' := by
    rintro rfl
    exact absurd (List.mem_takeWhile_imp hc) (by decide)
  simp [Scan.step, Scan.inMode, hline]

/-- The scan finds of a token what it has to. -/
theorem token {kind : Token.Kind} {taken rest : List Char}
    (h : Abreast stray s.mode i (taken ++ rest))
    (hstage : Stage text answer found i (taken ++ rest)) (ht : Lexeme taken kind) :
    s.run i taken = s.token ⟨kind, ⟨i, i + Text.bytes taken⟩⟩ ∧
      Abreast stray s.mode (i + Text.bytes taken) rest := by
  cases ht with
  | openParen =>
      have hcode := h.code_of_mem_marks hstray hstage (by decide)
      exact ⟨by simp [Scan.run, Scan.step, hcode, Scan.token], hcode ▸ trivial⟩
  | closeParen =>
      have hcode := h.code_of_mem_marks hstray hstage (by decide)
      refine ⟨?_, hcode ▸ trivial⟩
      simp only [Scan.run, Scan.step, hcode, Scan.token]
      cases s.opened <;> rfl
  | quote =>
      have hplain : '\'' ∉ marks ∧ '\'' ≠ ';' ∧ '\'' ≠ '\n' := by decide
      exact h.run_plain hstray (List.forall_mem_singleton.mpr hplain)
  | literal str hinner =>
      have hcode := h.code_of_mem_marks hstray hstage (by decide)
      exact ⟨Scan.run_closed hcode hinner str i, hcode ▸ trivial⟩
  | run hrun =>
      obtain ⟨hskip, hrest⟩ := h.run_plain hstray fun c hc => unmarked_of_inSymbol (hrun c hc)
      rw [Scan.token_classify]
      exact ⟨hskip, hrest⟩

/-- At the end of the text, the scan is in a string that has no end for the lexer. -/
theorem unterminated {taken rest : List Char} (h : Abreast stray s.mode i (c :: cs))
    (hstage : Stage text answer found i (c :: cs))
    (hm : munch c cs = (.error .unterminatedString, taken, rest))
    (hend : Text.bytes taken = Text.bytes (c :: cs)) :
    (s.run i (c :: cs)).mode.unclosed? ≠ none := by
  obtain rfl := eq_quote_of_unterminated (congrArg Prod.fst hm)
  obtain ⟨body, after, hmunch, hends⟩ := munch_quote cs
  rw [hmunch] at hm
  injection hm with hread hm
  injection hm with htaken hafter
  subst htaken hafter
  have hcode := h.code_of_mem_marks hstray hstage (by decide)
  obtain rfl := hends.append_eq
  obtain rfl : after = [] := by
    refine Text.eq_nil_of_bytes ?_
    rw [← List.cons_append, Text.bytes_append] at hend
    omega
  -- The last character may be a backslash, which is where the scan waits for what it escapes.
  obtain ⟨inner, hinner, rfl | rfl⟩ := hends.of_unterminated hread
  · rw [List.append_nil, Scan.run_literal hcode hinner]
    exact Option.some_ne_none i
  · rw [List.append_nil, ← List.cons_append, Scan.run_append, Scan.run_literal hcode hinner]
    exact Option.some_ne_none i

end Abreast

/-! ## The scan of a text -/

/-- What the scan of the characters comes to, given what the lexer makes of them: the findings of
the tokens, or the middle of a string if the text ends there. -/
def Follows (s : Scan) (found : List Token) (pos : Nat) (cs : List Char) :
    Except LexError (List Token) → Prop
  | .ok ts => ∃ more m, ts = found.reverse ++ more ∧ m.unclosed? = none ∧
      s.run pos cs = (s.tokens more).inMode m
  | .error e => e.fault = .unterminatedString → e.span.stop = pos + Text.bytes cs →
      (s.run pos cs).mode.unclosed? ≠ none

namespace Follows

variable {s : Scan} {found : List Token} {pos : Nat} {as bs : List Char}
  {answer : Except LexError (List Token)}

theorem skip {m : Mode} (hrun : s.run pos as = s.inMode m)
    (h : Follows (s.inMode m) found (pos + Text.bytes as) bs answer) :
    Follows s found pos (as ++ bs) answer := by
  unfold Follows at *
  rw [Scan.run_append, hrun, Text.bytes_append, ← Nat.add_assoc]
  cases answer with
  | error e => exact h
  | ok ts =>
      obtain ⟨more, m', hts, hm', hmore⟩ := h
      refine ⟨more, m', hts, hm', ?_⟩
      rw [hmore, Scan.tokens_inMode]
      rfl

theorem token {t : Token} (hrun : s.run pos as = s.token t)
    (h : Follows (s.token t) (t :: found) (pos + Text.bytes as) bs answer) :
    Follows s found pos (as ++ bs) answer := by
  unfold Follows at *
  rw [Scan.run_append, hrun, Text.bytes_append, ← Nat.add_assoc]
  cases answer with
  | error e => exact h
  | ok ts =>
      obtain ⟨more, m, hts, hm, hmore⟩ := h
      exact ⟨t :: more, m, by simp [hts], hm, hmore⟩

end Follows

section

variable {stray : Nat → List Char → Prop}

theorem Strays.follows {text : List Char} {answer : Except LexError (List Token)}
    (hstray : Strays text answer stray) {found : List Token} {pos : Nat} {cs : List Char}
    (hstage : Stage text answer found pos cs) {s : Scan} (h : Abreast stray s.mode pos cs) :
    Follows s found pos cs answer := by
  induction found, pos, cs using split.induct generalizing s with
  | case1 found pos =>
      have hanswer := hstage.split
      rw [split] at hanswer
      subst hanswer
      exact ⟨[], s.mode, by simp, h.unclosed?, rfl⟩
  | case2 found pos c cs hblank ih =>
      obtain ⟨hmark, hcomment⟩ := unmarked_of_isBlank hblank
      obtain ⟨m, hstep, hnext, -⟩ := h.plain hstray hmark hcomment
      have hrun : s.run pos [c] = s.inMode m := hstep
      rw [← List.singleton_append]
      exact .skip hrun (ih (hstage.blank hblank) hnext)
  | case3 found pos cs hblank ih =>
      obtain ⟨hrun, hnext⟩ := h.comment hstray hstage
      have hcs : ';' :: cs.takeWhile inComment ++ cs.dropWhile inComment = ';' :: cs := by simp
      rw [← hcs]
      exact .skip hrun (ih hstage.comment hnext)
  | case4 found pos c cs hblank hcomment next span kind hkind =>
      rename_i ih
      have hm : munch c cs = (.ok kind, next.2) := Prod.ext hkind rfl
      obtain ⟨hcs, hlexeme⟩ := lexeme_of_munch hm
      have hafter := hstage.token (Bool.eq_false_iff.mpr hblank) hcomment hm
      rw [← hcs] at h hstage ⊢
      obtain ⟨hrun, hnext⟩ := h.token hstray hstage hlexeme
      refine .token hrun (ih hafter ?_)
      rwa [Scan.token_mode]
  | case5 found pos c cs hblank hcomment next fault hfault =>
      have hm : munch c cs = (.error fault, next.2) := Prod.ext hfault rfl
      have hanswer := hstage.split
      rw [split, if_neg hblank, if_neg hcomment, hm] at hanswer
      subst hanswer
      rintro rfl hstop
      exact h.unterminated hstray hstage hm (Nat.add_left_cancel hstop)

variable {text : String}

theorem Strays.follows_tokenize (hstray : Strays text.toList (tokenize text) stray) :
    Follows Scan.start [] 0 text.toList (tokenize text) :=
  hstray.follows (Stage.start text.toList) trivial

theorem Strays.run_eq {ts : List Token} (h : tokenize text = .ok ts)
    (hstray : Strays text.toList (tokenize text) stray) :
    ∃ m, m.unclosed? = none ∧ Scan.start.run 0 text.toList = (Scan.start.tokens ts).inMode m := by
  have hfollows := hstray.follows_tokenize
  rw [h] at hfollows
  obtain ⟨more, m, rfl, hm, hrun⟩ := hfollows
  exact ⟨m, hm, hrun⟩

end

/-! ## What is found -/

/-- The places of brackets, in pairs, unmatched and open. -/
def places (pairs : List (Nat × Nat)) (unmatched opened : List Nat) : List Nat :=
  pairs.flatMap (fun p => [p.1, p.2]) ++ unmatched ++ opened

end Prompt.Brackets

/-- Where the bracket is that the token is. -/
def Token.bracket? (t : Token) : Option Nat :=
  match t.kind with
  | .openParen | .closeParen => some t.span.start
  | _ => none

/-- Where the string is that the token is. -/
def Token.string? (t : Token) : Option Span :=
  match t.kind with
  | .string _ => some t.span
  | _ => none

theorem Token.start_of_bracket? {t : Token} {k : Nat} (h : t.bracket? = some k) :
    t.span.start = k := by
  unfold bracket? at h
  split at h <;> cases h <;> rfl

theorem Token.span_of_string? {t : Token} {s : Span} (h : t.string? = some s) : t.span = s := by
  unfold string? at h
  split at h <;> cases h
  rfl

namespace Prompt.Brackets

/-- What is known about the line is what the tokens say: each bracket is found once and nothing
else is, the strings are those of the tokens, and none of them is open. -/
structure AgreesWith (b : Brackets) (ts : List Token) : Prop where
  brackets : (places b.pairs b.unmatched b.opened).Perm (ts.filterMap Token.bracket?)
  strings : b.strings = ts.filterMap Token.string?
  closed : b.inString = false

def Scan.places (s : Scan) : List Nat :=
  Brackets.places s.pairs s.unmatched s.opened

theorem Scan.token_places (s : Scan) (t : Token) :
    (s.token t).places.Perm (t.bracket?.toList ++ s.places) := by
  obtain ⟨pairs, unmatched, opened, strings, mode⟩ := s
  obtain ⟨kind, span⟩ := t
  cases kind with
  | openParen => exact List.perm_middle
  | closeParen =>
      cases opened with
      | nil => exact List.perm_middle.append_right []
      | cons partner rest => exact (List.Perm.swap _ _ _).trans (List.perm_middle.symm.cons _)
  | _ => exact .refl _

theorem Scan.tokens_places (s : Scan) (ts : List Token) :
    (s.tokens ts).places.Perm (ts.filterMap Token.bracket? ++ s.places) := by
  induction ts generalizing s with
  | nil => exact .refl _
  | cons t ts ih =>
      have hhead : (ts.filterMap Token.bracket? ++ (s.token t).places).Perm
          (t.bracket?.toList ++ (ts.filterMap Token.bracket? ++ s.places)) := by
        refine ((s.token_places t).append_left _).trans ?_
        rw [← List.append_assoc, ← List.append_assoc]
        exact List.perm_append_comm.append_right _
      refine (ih (s.token t)).trans (hhead.trans ?_)
      rw [List.filterMap_cons]
      cases t.bracket? <;> exact .refl _

theorem Scan.tokens_strings (s : Scan) (ts : List Token) :
    (s.tokens ts).strings = (ts.filterMap Token.string?).reverse ++ s.strings := by
  induction ts generalizing s with
  | nil => rfl
  | cons t ts ih =>
      have hhead : (s.token t).strings = t.string?.toList ++ s.strings := by
        obtain ⟨kind, span⟩ := t
        cases kind with
        | closeParen =>
            simp only [token]
            split <;> rfl
        | _ => rfl
      refine (ih (s.token t)).trans ?_
      rw [hhead, List.filterMap_cons]
      cases t.string? <;> simp

theorem Scan.finish_places (s : Scan) (size : Nat) :
    (Brackets.places (s.finish size).pairs (s.finish size).unmatched (s.finish size).opened).Perm
      s.places :=
  (((List.reverse_perm _).flatMap_right _).append (List.reverse_perm _)).append
    (List.reverse_perm _)

end Prompt.Brackets

open Prompt (Brackets)

theorem Prompt.Brackets.Strays.agreesWith {stray : Nat → List Char → Prop} {text : String}
    {ts : List Token} (hstray : Strays text.toList (tokenize text) stray)
    (h : tokenize text = .ok ts) : (Brackets.of text.toList).AgreesWith ts := by
  obtain ⟨m, hm, hrun⟩ := hstray.run_eq h
  rw [Brackets.of, hrun]
  refine ⟨?_, ?_, ?_⟩
  · refine (Brackets.Scan.finish_places _ _).trans ?_
    have hplaces := Brackets.Scan.start.tokens_places ts
    rwa [show Brackets.Scan.start.places = [] from rfl, List.append_nil] at hplaces
  · simp only [Brackets.Scan.finish, Brackets.Scan.inMode, hm]
    rw [Brackets.Scan.tokens_strings]
    simp [Brackets.Scan.start]
  · simp [Brackets.Scan.finish, Brackets.Scan.inMode, hm]

end DualScope
