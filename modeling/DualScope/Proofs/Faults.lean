import DualScope.Proofs.Extents

/-!
# Where the faults of a text are

A text that cannot be read has a fault: the lexer finds characters that are no token, or the
reader a token that cannot follow, or the text ends too early. Only a fault of the last kind has
no place. The others are at characters of the text, and at one at least: those that the lexer
took, or those of a token. It need not be the token that the reader has come to, for a list that
is closed behind its dot is at fault where the dot is.

What was read before the fault is data, of the tokens up to the expression that has the fault.
-/

namespace DualScope

open Grammar (Datum Data Extent)
open Text (bytes)

/-! ## The lexer -/

namespace Lexer

variable {cs : List Char}

/-- A token or a fault takes the character that it starts with and some that follow. -/
theorem munch_taken (c : Char) (cs : List Char) :
    ∃ more, (munch c cs).2.1 = c :: more ∧ more ++ (munch c cs).2.2 = cs := by
  by_cases hquote : c = '"'
  · subst hquote
    obtain ⟨body, rest, hmunch, hends⟩ := munch_quote cs
    rw [hmunch]
    exact ⟨body, rfl, hends.append_eq⟩
  by_cases hsymbol : inSymbol c = true
  · rw [munch_symbol hsymbol]
    exact ⟨_, rfl, List.takeWhile_append_dropWhile⟩
  refine ⟨[], ?_⟩
  unfold munch
  split
  · exact ⟨rfl, rfl⟩
  split
  · exact ⟨rfl, rfl⟩
  split
  · exact ⟨rfl, rfl⟩
  exact ⟨rfl, rfl⟩

/-- What the lexer cannot split are characters that follow one another. -/
theorem part_of_split_error {found : List Token} {pos : Nat} {e : LexError}
    (h : split found pos cs = .error e) :
    ∃ before part after, cs = before ++ (part ++ after) ∧ part ≠ [] ∧
      e.span = ⟨pos + bytes before, pos + bytes before + bytes part⟩ := by
  fun_induction split found pos cs with
  | case1 => cases h
  | case2 found pos c cs hblank ih =>
      obtain ⟨before, part, after, rfl, hpart, hspan⟩ := ih h
      refine ⟨c :: before, part, after, rfl, hpart, ?_⟩
      rw [Text.bytes_cons, ← Nat.add_assoc]
      exact hspan
  | case3 found pos cs hblank ih =>
      obtain ⟨before, part, after, hcs, hpart, hspan⟩ := ih h
      refine ⟨(';' :: cs.takeWhile inComment) ++ before, part, after, ?_, hpart, ?_⟩
      · rw [List.append_assoc, ← hcs, List.cons_append, List.takeWhile_append_dropWhile]
      · rw [Text.bytes_append, ← Nat.add_assoc]
        exact hspan
  | case4 found pos c cs hblank hcomment next span kind hkind ih =>
      obtain ⟨before, part, after, hcs, hpart, hspan⟩ := ih h
      obtain ⟨more, htaken, hrest⟩ := munch_taken c cs
      refine ⟨next.2.1 ++ before, part, after, ?_, hpart, ?_⟩
      · rw [List.append_assoc, ← hcs, htaken, List.cons_append, hrest]
      · rw [Text.bytes_append, ← Nat.add_assoc]
        exact hspan
  | case5 found pos c cs hblank hcomment next span fault hfault =>
      cases h
      obtain ⟨more, htaken, hrest⟩ := munch_taken c cs
      refine ⟨[], next.2.1, next.2.2, ?_, ?_, rfl⟩
      · rw [List.nil_append, htaken, List.cons_append, hrest]
      · rw [htaken]
        exact List.cons_ne_nil c more

end Lexer

/-! ## The reader -/

namespace Reader

variable {before ts : List Token} {r : Reading} {e : ReadError}

theorem Opens.mem_dot {bracket dot : Span} {items : List Value} {forms : List Open}
    (h : Opens ts (.dotted bracket items dot :: forms)) : ⟨.dot, dot⟩ ∈ ts := by
  cases h with
  | dotted _ _ _ _ _ => simp

/-- A token is at fault itself, or a dot in front of it is. -/
theorem feed_fault {t : Token} (h : r.Follows ts) (hf : feed r t = .error e) :
    ∃ u ∈ ts ++ [t], e.span? = some u.span := by
  have hself : ∃ u ∈ ts ++ [t], some t.span = some u.span := ⟨t, by simp, rfl⟩
  unfold feed at hf
  split at hf <;> cases hf
  case h_4 bracket items dot forms hkind =>
    exact ⟨⟨.dot, dot⟩, List.mem_append_left [t] h.mem_dot, rfl⟩
  all_goals exact hself

theorem finish_fault (h : r.Follows before) (hf : finish r ts = .error e) :
    ∀ s ∈ e.span?, ∃ u ∈ before ++ ts, u.span = s := by
  induction ts generalizing before r with
  | nil =>
      cases hf
      intro s hs
      cases hs
  | cons t ts ih =>
      have happend : before ++ t :: ts = before ++ [t] ++ ts := by simp
      rw [finish] at hf
      rw [happend]
      cases hfeed : feed r t with
      | error e' =>
          rw [hfeed] at hf
          cases hf
          obtain ⟨u, hu, hspan⟩ := feed_fault h hfeed
          intro s hs
          rw [hspan] at hs
          exact ⟨u, List.mem_append_left ts hu, Option.some.inj hs⟩
      | ok next =>
          rw [hfeed] at hf
          cases next with
          | complete v => cases hf
          | reading r' => exact ih (feed_follows h hfeed) hf

/-- The values in front of the fault are data of the first tokens. -/
theorem all_data (ts : List Token) : ∃ used rest, ts = used ++ rest ∧ Data used (all ts).1 := by
  obtain ⟨ws, used, rest, hcollect, hts, hws, -⟩ := collect_cases [] ts
  refine ⟨used, rest, hts, ?_⟩
  rw [all, hcollect]
  exact hws

/-- A fault that has a place has that of a token. -/
theorem all_fault (h : (all ts).2 = some e) : ∀ s ∈ e.span?, ∃ u ∈ ts, u.span = s := by
  obtain ⟨ws, used, rest, -, rfl, -, hfault⟩ := collect_cases [] ts
  rw [all] at h
  rw [h] at hfault
  intro s hs
  obtain ⟨u, hu, hspan⟩ := finish_fault (show start.Follows [] from .nil) hfault s hs
  exact ⟨u, List.mem_append_right used hu, hspan⟩

theorem program_eq_error_iff : program ts = .error e ↔ (all ts).2 = some e := by
  rw [program]
  obtain ⟨vs, fault⟩ := all ts
  cases fault <;> simp

end Reader

/-! ## Texts -/

variable {text : String} {ts : List Token}

theorem lexemes_eq_error_iff {e : ReadError} :
    lexemes text = .error e ↔ ∃ e', tokenize text = .error e' ∧ e = .lexical e' := by
  unfold lexemes
  cases tokenize text with
  | ok ts => exact ⟨(nomatch ·), fun ⟨_, h, _⟩ => nomatch h⟩
  | error e' =>
      constructor
      · intro h
        cases h
        exact ⟨e', rfl, rfl⟩
      · rintro ⟨_, ⟨⟩, rfl⟩
        rfl

/-- The faults of a text are those of the lexer, and else those of the reader. -/
theorem readProgram_eq_error_iff {e : ReadError} :
    readProgram text = .error e ↔
      lexemes text = .error e ∨ ∃ ts, lexemes text = .ok ts ∧ (Reader.all ts).2 = some e := by
  unfold readProgram
  cases lexemes text with
  | error e' => simp [Bind.bind, Except.bind]
  | ok ts =>
      simp only [Bind.bind, Except.bind, Reader.program_eq_error_iff, Except.ok.injEq,
        exists_eq_left', reduceCtorEq, false_or]

theorem LexError.cuts {e : LexError} (h : tokenize text = .error e) :
    ∃ before part, part ≠ [] ∧ e.span.Cuts text before part := by
  obtain ⟨before, part, after, htext, hpart, hspan⟩ := Lexer.part_of_split_error h
  rw [Nat.zero_add] at hspan
  exact ⟨before, part, hpart, ⟨after, htext⟩, hspan⟩

/-- The extent of tokens that follow one another cuts one character or more out of the text. -/
theorem Grammar.Extent.cuts {before us after : List Token} {s : Span} (h : Extent us s)
    (hlaid : Lexer.Laid 0 text.toList (before ++ (us ++ after))) :
    ∃ front part, part ≠ [] ∧ s.Cuts text front part := by
  obtain ⟨front, part, back, htext, hpart, hstart, hstop⟩ := hlaid.part
  rw [Nat.zero_add] at hstart hstop
  obtain ⟨first, hfirst, last, hlast, rfl⟩ := h
  refine ⟨front, part, ?_, ⟨back, htext⟩, ?_⟩
  · rintro rfl
    obtain ⟨htaken, hwithin⟩ := hpart.ordered
    have hmem := List.mem_of_mem_head? hfirst
    have hfits := hwithin first hmem
    have hsome := htaken.taken first hmem
    rw [Text.bytes_nil] at hfits
    omega
  · rw [hstart first hfirst, hstop last hlast]

/-- The span of a token cuts its characters out of the text. -/
theorem Token.cuts {t : Token} (h : tokenize text = .ok ts) (ht : t ∈ ts) :
    ∃ before part, part ≠ [] ∧ t.span.Cuts text before part := by
  obtain ⟨front, back, rfl⟩ := List.append_of_mem ht
  have hlaid := Lexer.tokenize_eq_ok_iff.mp h
  rw [← List.singleton_append] at hlaid
  exact Extent.cuts ⟨t, rfl, t, rfl, rfl⟩ hlaid

/-- A fault that has a place is at characters of the text. -/
theorem ReadError.cuts {e : ReadError} {s : Span} (h : readProgram text = .error e)
    (hs : e.span? = some s) : ∃ before part, part ≠ [] ∧ s.Cuts text before part := by
  rcases readProgram_eq_error_iff.mp h with hlex | ⟨ts, htokens, hfault⟩
  · obtain ⟨e', htokens, rfl⟩ := lexemes_eq_error_iff.mp hlex
    cases hs
    exact LexError.cuts htokens
  · obtain ⟨t, ht, rfl⟩ := Reader.all_fault hfault s hs
    exact Token.cuts (lexemes_eq_ok_iff.mp htokens) ht

end DualScope
