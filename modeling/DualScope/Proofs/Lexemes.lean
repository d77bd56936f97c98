import DualScope.Proofs.Lexing
import Mathlib.Data.List.TakeWhile

/-!
# The characters of a token

A bracket and the quote mark are one character, and a run is made of symbol characters. What
takes care is a literal. Behind its opening quote it goes on over characters that stand for
themselves and over escapes, each of which is a backslash with one more character. As long as
there is nothing else, the literal is not closed, whatever quotes there are: each of them is
behind a backslash.

A literal is closed by a quote, or it runs into the end of the text, or into a backslash with
nothing to escape. Only in the first case is it ever a string. In the other two it has no end,
or it has an escape that is not known; even if its last character is a quote, for then this quote
is escaped.
-/

namespace DualScope

theorem Text.eq_nil_of_bytes {cs : List Char} (h : bytes cs = 0) : cs = [] := by
  cases cs with
  | nil => rfl
  | cons c cs =>
      have := c.utf8Size_pos
      rw [bytes_cons] at h
      omega

namespace Lexer

/-- Behind the opening quote of a literal, the characters do not close it, and they do not end in
the middle of an escape. -/
inductive Inside : List Char → Prop
  | nil : Inside []
  | plain {c : Char} {cs : List Char} : c ≠ '"' → c ≠ '\\' → Inside cs → Inside (c :: cs)
  | escape {c : Char} {cs : List Char} : c ≠ '\n' → Inside cs → Inside ('\\' :: c :: cs)

/-- Behind an opening quote there are the characters of a literal and then others. -/
inductive EndsLiteral : List Char → List Char → List Char → Prop
  | closed {inner : List Char} (rest : List Char) : Inside inner →
    EndsLiteral (inner ++ '"' :: rest) (inner ++ ['"']) rest
  | unclosed {inner : List Char} : Inside inner → EndsLiteral inner inner []
  | broken {inner rest : List Char} : Inside inner → (∀ c ∈ rest.head?, c = '\n') →
    EndsLiteral (inner ++ '\\' :: rest) (inner ++ ['\\']) rest

namespace EndsLiteral

variable {cs body rest : List Char} {c : Char}

theorem append_eq (h : EndsLiteral cs body rest) : body ++ rest = cs := by
  cases h <;> simp

theorem plain (hquote : c ≠ '"') (hbackslash : c ≠ '\\') (h : EndsLiteral cs body rest) :
    EndsLiteral (c :: cs) (c :: body) rest := by
  cases h with
  | closed rest h => exact .closed rest (.plain hquote hbackslash h)
  | unclosed h => exact .unclosed (.plain hquote hbackslash h)
  | broken h hrest => exact .broken (.plain hquote hbackslash h) hrest

theorem escape (hline : c ≠ '\n') (h : EndsLiteral cs body rest) :
    EndsLiteral ('\\' :: c :: cs) ('\\' :: c :: body) rest := by
  cases h with
  | closed rest h => exact .closed rest (.escape hline h)
  | unclosed h => exact .unclosed (.escape hline h)
  | broken h hrest => exact .broken (.escape hline h) hrest

end EndsLiteral

/-- What the lexer takes for the characters of a literal. -/
theorem literal_ends (taken cs : List Char) :
    ∃ body rest, literal taken cs = (taken.reverse ++ body, rest) ∧ EndsLiteral cs body rest := by
  fun_induction literal taken cs with
  | case1 taken => exact ⟨[], [], by simp, .unclosed .nil⟩
  | case2 taken cs => exact ⟨['"'], cs, by simp, .closed cs .nil⟩
  | case3 taken => exact ⟨['\\'], [], by simp, .broken .nil (by simp)⟩
  | case4 taken cs => exact ⟨['\\'], '\n' :: cs, by simp, .broken .nil (by simp)⟩
  | case5 taken c cs hline ih =>
      obtain ⟨body, rest, heq, hends⟩ := ih
      exact ⟨'\\' :: c :: body, rest, by simp [heq], hends.escape hline⟩
  | case6 taken c cs hquote hlast hline hescape ih =>
      obtain ⟨body, rest, heq, hends⟩ := ih
      have hbackslash : c ≠ '\\' := by
        intro hc
        cases cs with
        | nil => exact hlast hc rfl
        | cons d cs => exact hescape d cs hc rfl
      exact ⟨c :: body, rest, by simp [heq], hends.plain hquote hbackslash⟩

/-! ## What is read inside -/

theorem contents_cons {c : Char} (hc : c ≠ '\\') (taken cs : List Char) :
    contents taken (c :: cs) = contents (c :: taken) cs :=
  contents.eq_4 taken c cs (fun h => absurd h hc) (fun _ _ h => absurd h hc)

/-- No literal is found to have no end for what is inside. -/
theorem Inside.contents_ne {cs : List Char} (h : Inside cs) (taken : List Char) :
    contents taken cs ≠ .error .unterminatedString := by
  induction h generalizing taken with
  | nil => simp [contents]
  | plain _ hbackslash _ ih =>
      rw [contents_cons hbackslash]
      exact ih _
  | @escape c cs _ _ ih =>
      rw [contents]
      cases unescape? c with
      | some d => exact ih _
      | none => simp

/-- A quote at the end of what is inside is escaped, and without it the escape is broken off. -/
theorem Inside.contents_dropLast {cs : List Char} (h : Inside cs) (hlast : cs.getLast? = some '"')
    (taken : List Char) : ∃ fault, contents taken cs.dropLast = .error fault := by
  induction h generalizing taken with
  | nil => cases hlast
  | @plain c cs hquote hbackslash _ ih =>
      cases cs with
      | nil =>
          cases hlast
          exact absurd rfl hquote
      | cons d cs =>
          rw [List.dropLast_cons_cons, contents_cons hbackslash]
          exact ih (by rwa [List.getLast?_cons_cons] at hlast) _
  | @escape c cs _ _ ih =>
      cases cs with
      | nil =>
          refine ⟨.unterminatedString, ?_⟩
          rw [List.dropLast_cons_cons, List.dropLast_singleton, contents]
      | cons d cs =>
          rw [List.dropLast_cons_cons, List.dropLast_cons_cons, contents]
          cases unescape? c with
          | some e =>
              rw [List.getLast?_cons_cons, List.getLast?_cons_cons] at hlast
              exact ih hlast _
          | none => exact ⟨_, rfl⟩

theorem Inside.readLiteral_error {cs : List Char} (h : Inside cs) :
    ∃ fault, readLiteral cs = .error fault := by
  rw [readLiteral]
  split
  · next hlast =>
      obtain ⟨fault, hfault⟩ := h.contents_dropLast hlast []
      exact ⟨fault, by rw [hfault]; rfl⟩
  · exact ⟨_, rfl⟩

theorem readLiteral_backslash (cs : List Char) :
    readLiteral (cs ++ ['\\']) = .error .unterminatedString := by
  rw [readLiteral, if_neg (by simp)]

theorem readLiteral_quote (cs : List Char) :
    readLiteral (cs ++ ['"']) = (contents [] cs).map fun ds => .string (.ofList ds) := by
  rw [readLiteral, if_pos (by simp), List.dropLast_concat]

namespace EndsLiteral

variable {cs body rest : List Char}

/-- A literal that is read is a string, and it is closed. -/
theorem of_ok {kind : Token.Kind} (h : EndsLiteral cs body rest)
    (hread : readLiteral body = .ok kind) :
    (∃ s, kind = .string s) ∧ ∃ inner, Inside inner ∧ body = inner ++ ['"'] := by
  cases h with
  | @closed inner rest h =>
      rw [readLiteral_quote] at hread
      cases hinner : contents [] inner with
      | error fault =>
          rw [hinner] at hread
          cases hread
      | ok ds =>
          rw [hinner] at hread
          cases hread
          exact ⟨⟨_, rfl⟩, inner, h, rfl⟩
  | unclosed h =>
      obtain ⟨fault, hfault⟩ := h.readLiteral_error
      rw [hfault] at hread
      cases hread
  | @broken inner rest h hrest =>
      rw [readLiteral_backslash] at hread
      cases hread

/-- A literal without an end is not closed. -/
theorem of_unterminated (h : EndsLiteral cs body rest)
    (hread : readLiteral body = .error .unterminatedString) :
    ∃ inner, Inside inner ∧ (body = inner ∨ body = inner ++ ['\\']) := by
  cases h with
  | @closed inner rest h =>
      rw [readLiteral_quote] at hread
      cases hinner : contents [] inner with
      | error fault =>
          rw [hinner] at hread
          cases hread
          exact absurd hinner (h.contents_ne [])
      | ok ds =>
          rw [hinner] at hread
          cases hread
  | unclosed h => exact ⟨_, h, .inl rfl⟩
  | @broken inner rest h hrest => exact ⟨inner, h, .inr rfl⟩

end EndsLiteral

/-! ## Characters of a token -/

theorem munch_quote (cs : List Char) : ∃ body rest,
    munch '"' cs = (readLiteral body, '"' :: body, rest) ∧ EndsLiteral cs body rest := by
  obtain ⟨body, rest, hliteral, hends⟩ := literal_ends [] cs
  refine ⟨body, rest, ?_, hends⟩
  show (readLiteral (literal [] cs).1, '"' :: (literal [] cs).1, (literal [] cs).2) = _
  rw [hliteral]
  rfl

/-- Only a string can lack its end. -/
theorem eq_quote_of_unterminated {c : Char} {cs : List Char}
    (h : (munch c cs).1 = .error .unterminatedString) : c = '"' := by
  unfold munch at h
  split at h
  · cases h
  split at h
  · cases h
  split at h
  · cases h
  split at h
  · assumption
  split at h
  · dsimp only [readRun] at h
    split at h <;> cases h
  · cases h

/-- The characters that a token of the kind is made of. -/
inductive Lexeme : List Char → Token.Kind → Prop
  | openParen : Lexeme ['('] .openParen
  | closeParen : Lexeme [')'] .closeParen
  | quote : Lexeme ['\''] .quote
  | literal {inner : List Char} (s : String) : Inside inner →
    Lexeme ('"' :: (inner ++ ['"'])) (.string s)
  | run {cs : List Char} : (∀ c ∈ cs, inSymbol c = true) → Lexeme cs (classify cs)

theorem eq_classify_of_readRun {run rest : List Char} {kind : Token.Kind}
    (h : readRun run rest = .ok kind) : kind = classify run := by
  unfold readRun at h
  split at h <;> cases h
  rfl

theorem lexeme_of_munch {c : Char} {cs taken rest : List Char} {kind : Token.Kind}
    (h : munch c cs = (.ok kind, taken, rest)) : taken ++ rest = c :: cs ∧ Lexeme taken kind := by
  -- Apart from a literal, what is taken can be read off the branch.
  by_cases hquote : c = '"'
  · subst hquote
    obtain ⟨body, rest', hmunch, hends⟩ := munch_quote cs
    rw [hmunch] at h
    injection h with hread h
    injection h with htaken hrest
    subst htaken hrest
    obtain ⟨⟨s, rfl⟩, inner, hinner, rfl⟩ := hends.of_ok hread
    exact ⟨congrArg _ hends.append_eq, .literal s hinner⟩
  unfold munch at h
  split at h
  · next hc =>
    cases h
    subst hc
    exact ⟨rfl, .openParen⟩
  split at h
  · next hc =>
    cases h
    subst hc
    exact ⟨rfl, .closeParen⟩
  split at h
  · next hc =>
    cases h
    subst hc
    exact ⟨rfl, .quote⟩
  split at h
  · next hc =>
    injection h with hread h
    injection h with htaken hrest
    subst htaken hrest
    rw [eq_classify_of_readRun hread]
    refine ⟨by simp, .run ?_⟩
    exact List.forall_mem_cons.mpr ⟨hc, fun d hd => List.mem_takeWhile_imp hd⟩
  · cases h

end Lexer

end DualScope
