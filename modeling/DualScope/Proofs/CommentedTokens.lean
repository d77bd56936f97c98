import DualScope.Proofs.Findings

/-!
# Tokens behind a comment

For the prompt a comment goes on to the end of the line, whatever the lexer takes for its end. So
the strings among the tokens are enough to tell which tokens the prompt takes for a part of a
comment. If no bracket and no string is one of those, the prompt finds what the lexer finds. And
if there is one, it is lost, since nothing that the prompt finds in a line is in a comment.
-/

namespace DualScope

open Lexer
open Prompt (Brackets)
open Text (At)

/-- The token is a bracket or a string. -/
def Token.Marked (t : Token) : Prop :=
  t.bracket?.isSome ∨ t.string?.isSome

instance (t : Token) : Decidable t.Marked :=
  inferInstanceAs (Decidable (_ ∨ _))

/-- The byte is on the line of a comment, and behind it: a semicolon is before it, outside of the
strings among the tokens, and there is no line feed between the two. -/
def BehindComment (ts : List Token) (line : List Char) (k : Nat) : Prop :=
  ∃ j, j < k ∧ At line j ';' ∧ (∀ s ∈ ts.filterMap Token.string?, ¬ (s.start ≤ j ∧ j < s.stop)) ∧
    ∀ m < k, j < m → ¬ At line m '\n'

instance (ts : List Token) (line : List Char) (k : Nat) : Decidable (BehindComment ts line k) :=
  inferInstanceAs (Decidable (∃ j, j < k ∧ _))

namespace Lexer

variable {i : Nat} {c : Char} {cs : List Char} {ts : List Token}

/-- Where the lexer comes to a mark, a bracket or a string begins. -/
theorem Laid.marked (h : Laid i (c :: cs) ts) (hc : c ∈ marks) :
    ∃ t ∈ ts, t.Marked ∧ t.span.start = i := by
  cases h with
  | blank hblank _ => exact absurd hc (unmarked_of_isBlank hblank).1
  | comment _ => exact absurd hc (by decide)
  | @token _ _ _ taken rest kind ts _ _ hmunch _ =>
      refine ⟨_, List.mem_cons_self, ?_, rfl⟩
      obtain ⟨more, rfl, -⟩ := munch_of_continues hmunch (Continues.of_prefix List.nil_prefix)
      cases (lexeme_of_munch hmunch).2 with
      | openParen => exact .inl rfl
      | closeParen => exact .inl rfl
      | quote => exact absurd hc (by decide)
      | literal _ _ => exact .inr rfl
      | run hrun => exact absurd hc (unmarked_of_inSymbol (hrun c List.mem_cons_self)).1

end Lexer

namespace Prompt.Brackets

variable {text : List Char} {ts : List Token}

/-- Behind a comment the scan strays up to the end of the line. -/
theorem strays_behindComment
    (h : ∀ t ∈ ts, t.Marked → ¬ BehindComment ts text t.span.start) :
    Strays text (.ok ts) fun i cs =>
      (∃ front, text = front ++ cs ∧ Text.bytes front = i) ∧ BehindComment ts text i where
  behind {found i cs} hstage := by
    have hafter := hstage.comment
    refine ⟨hafter.front, i, ?_, ?_, fun s hs => ?_, fun m hm hi hline => ?_⟩
    · exact Nat.lt_add_of_pos_right (bytes_pos (List.cons_ne_nil _ _))
    · obtain ⟨front, hfront, hbytes⟩ := hstage.front
      exact ⟨front, cs, hfront, hbytes⟩
    · -- The tokens found so far end before the comment, and the others begin behind it.
      obtain ⟨t, ht, hts⟩ := List.mem_filterMap.mp hs
      obtain rfl : t.span = s := Token.span_of_string? hts
      obtain ⟨more, rfl, hmore⟩ := laid_of_split hafter.split
      rcases List.mem_append.mp ht with ht | ht
      · have hstop := hstage.behind t (List.mem_reverse.mp ht)
        omega
      · have hstart := (hmore.ordered.2 t ht).1
        have hpos := Text.bytes_cons ';' (cs.takeWhile inComment)
        have hone := Char.utf8Size_pos ';'
        omega
    · obtain ⟨front, hfront, rfl⟩ := hstage.front
      have hcs : ';' :: cs = (';' :: cs.takeWhile inComment) ++ cs.dropWhile inComment := by simp
      rw [hfront, hcs] at hline
      rcases List.mem_cons.mp (hline.mem_of_within (Nat.le_of_lt hi) hm) with hc | hc
      · cases hc
      · exact absurd (List.mem_takeWhile_imp hc) (by decide)
  next {i c cs} hstray hc := by
    obtain ⟨⟨front, rfl, rfl⟩, j, hj, hsemicolon, hout, hline⟩ := hstray
    refine ⟨⟨front ++ [c], by simp, Text.bytes_append front [c]⟩, j, by omega, hsemicolon, hout,
      fun m hm hjm hfeed => ?_⟩
    by_cases hfront : m < Text.bytes front
    · exact hline m hfront hjm hfeed
    · rw [← List.singleton_append] at hfeed
      have hmem := hfeed.mem_of_within (Nat.le_of_not_lt hfront) hm
      exact hc (List.mem_singleton.mp hmem).symm
  unmarked hstage hc hstray := by
    obtain ⟨more, rfl, hmore⟩ := laid_of_split hstage.split
    obtain ⟨t, ht, hmarked, rfl⟩ := hmore.marked hc
    exact h t (List.mem_append_right _ ht) hmarked hstray.2

/-- What is found is not behind a comment. -/
theorem AgreesWith.not_behindComment (h : (of text).AgreesWith ts) {t : Token} (ht : t ∈ ts)
    (hmarked : t.Marked) : ¬ BehindComment ts text t.span.start := by
  have hcomplete := complete_of text
  have hcomment : BehindComment ts text t.span.start → (of text).InComment text t.span.start := by
    rintro ⟨j, hj, hsemicolon, hout, hline⟩
    refine ⟨j, hj, hsemicolon, ?_, fun m hjm hm => hline m hm hjm⟩
    rintro ⟨s, hs, hin⟩
    rw [h.strings] at hs
    exact hout s hs hin
  refine mt hcomment ?_
  rcases hmarked with hbracket | hstring
  · obtain ⟨k, hk⟩ := Option.isSome_iff_exists.mp hbracket
    obtain rfl : t.span.start = k := Token.start_of_bracket? hk
    have hplace := h.brackets.mem_iff.mpr (List.mem_filterMap.mpr ⟨t, ht, hk⟩)
    exact ((hcomplete.brackets _).mp hplace).2.2
  · obtain ⟨s, hs⟩ := Option.isSome_iff_exists.mp hstring
    obtain rfl : t.span = s := Token.span_of_string? hs
    refine hcomplete.strings _ ?_
    rw [h.strings]
    exact List.mem_filterMap.mpr ⟨t, ht, hs⟩

end Prompt.Brackets

/-- Of a text without a fault the prompt finds the brackets and strings that are among its tokens,
if and only if none of them is on the line of a comment and behind it. -/
theorem brackets_agree_with_tokens {text : String} {ts : List Token}
    (h : tokenize text = .ok ts) : (Brackets.of text.toList).AgreesWith ts ↔
      ∀ t ∈ ts, t.Marked → ¬ BehindComment ts text.toList t.span.start := by
  refine ⟨fun hagrees t ht => hagrees.not_behindComment ht, fun hno => ?_⟩
  have hstray := Prompt.Brackets.strays_behindComment hno
  rw [← h] at hstray
  exact hstray.agreesWith h

/-- In `("a;b" c ; "(`, a carriage return, `d`, a line feed and `"(" e)` there is a semicolon in
front of a string, but it is in another string; and what the carriage return puts behind the
comment is a symbol. -/
theorem brackets_agree_with_tokens_lines :
    let text := "(\"a;b\" c ; \"(\r d\n\"(\" e)"
    let ts : List Token := [⟨.openParen, ⟨0, 1⟩⟩, ⟨.string "a;b", ⟨1, 6⟩⟩,
      ⟨.symbol "c", ⟨7, 8⟩⟩, ⟨.symbol "d", ⟨15, 16⟩⟩, ⟨.string "(", ⟨17, 20⟩⟩,
      ⟨.symbol "e", ⟨21, 22⟩⟩, ⟨.closeParen, ⟨22, 23⟩⟩]
    tokenize text = .ok ts ∧
      (∀ t ∈ ts, t.Marked → ¬ BehindComment ts text.toList t.span.start) ∧
      (Brackets.of text.toList).AgreesWith ts := by
  intro text ts
  have h : tokenize text = .ok ts := by cbv
  have hno : ∀ t ∈ ts, t.Marked → ¬ BehindComment ts text.toList t.span.start := by
    decide +kernel
  exact ⟨h, hno, (brackets_agree_with_tokens h).mpr hno⟩

/-- In `(a ; b`, a carriage return and `)`, the bracket behind the comment is a token, but the
prompt takes it for a part of the comment. -/
theorem brackets_miss_token :
    let text := "(a ; b\r)"
    let ts : List Token := [⟨.openParen, ⟨0, 1⟩⟩, ⟨.symbol "a", ⟨1, 2⟩⟩, ⟨.closeParen, ⟨7, 8⟩⟩]
    tokenize text = .ok ts ∧ ¬ (Brackets.of text.toList).AgreesWith ts := by
  intro text ts
  refine ⟨by cbv, fun h => ?_⟩
  have hlost : Brackets.of text.toList = ⟨[], [], [0], [], false⟩ := by decide +kernel
  have hlength := h.brackets.length_eq
  rw [hlost] at hlength
  cases hlength

end DualScope
