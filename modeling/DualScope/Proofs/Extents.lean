import DualScope.Proofs.Joining

/-!
# The extents of expressions

An expression is read from some tokens that follow one another, and its span is their extent: it
goes from where the first of them starts to where the last one stops. The reader does not take
it from there. It merges the span of a bracket with that of the other bracket, and the span of a
mark with that of what is behind it; that this is the extent is so because the tokens stand in
order.

Thus the span cuts a part out of the text, between two characters, and the part holds the
expression and nothing else. Split and read as a text of its own, it gives the tokens and the
tree that are found in the whole text, so many bytes further to the front.
-/

namespace DualScope

open Lexer (Laid Ordered)

namespace Grammar

/-! ## Expressions in expressions -/

/-- In the datum `v` of the tokens `ts` another one is read, `w` of the tokens `us`: what is
quoted, an element of a list, or its dotted tail. Its tokens stand between `before` and `after`. -/
inductive Part : List Token → Value → List Token → List Token → List Token → Value → Prop
  | quoted (mark : Span) {us : List Token} {w : Value} : Datum us w →
    Part (⟨.quote, mark⟩ :: us) (quoted mark w) [⟨.quote, mark⟩] us [] w
  | element (bracket close : Span) {ts us ws : List Token} {vs xs : List Value} {w : Value} :
    Data ts vs → Datum us w → Data ws xs →
      Part (⟨.openParen, bracket⟩ :: (ts ++ (us ++ ws) ++ [⟨.closeParen, close⟩]))
        (bracketed bracket close (.nil close) (vs ++ w :: xs))
        (⟨.openParen, bracket⟩ :: ts) us (ws ++ [⟨.closeParen, close⟩]) w
  | dottedElement (bracket dot close : Span) {ts us ws ds : List Token} {vs xs : List Value}
    {w tail : Value} : Data ts vs → Datum us w → Data ws xs → Datum ds tail →
      Part (⟨.openParen, bracket⟩ ::
          (ts ++ (us ++ ws) ++ ⟨.dot, dot⟩ :: (ds ++ [⟨.closeParen, close⟩])))
        (bracketed bracket close tail (vs ++ w :: xs))
        (⟨.openParen, bracket⟩ :: ts) us (ws ++ ⟨.dot, dot⟩ :: (ds ++ [⟨.closeParen, close⟩])) w
  | tail (bracket dot close : Span) {ts us : List Token} {vs : List Value} {w : Value} :
    Data ts vs → vs ≠ [] → Datum us w →
      Part (⟨.openParen, bracket⟩ :: (ts ++ ⟨.dot, dot⟩ :: (us ++ [⟨.closeParen, close⟩])))
        (bracketed bracket close w vs)
        (⟨.openParen, bracket⟩ :: (ts ++ [⟨.dot, dot⟩])) us [⟨.closeParen, close⟩] w

/-- In the row of data `vs` of the tokens `ts` the datum `w` is read, at any depth: it is one of
them, or a part of one that is read in them. Its tokens `us` stand between `before` and `after`. -/
inductive Reads (ts : List Token) (vs : List Value) :
    List Token → List Token → List Token → Value → Prop
  | top {before us after : List Token} {xs ys : List Value} {w : Value} :
    Data before xs → Datum us w → Data after ys → ts = before ++ (us ++ after) →
      vs = xs ++ w :: ys → Reads ts vs before us after w
  | part {before us after front xs back : List Token} {w x : Value} :
    Reads ts vs before us after w → Part us w front xs back x →
      Reads ts vs (before ++ front) xs (back ++ after) x

variable {ts us before after : List Token} {vs : List Value} {v w : Value}

theorem Part.datum (h : Part ts v before us after w) : Datum us w := by
  cases h <;> assumption

theorem Part.tokens_eq (h : Part ts v before us after w) : ts = before ++ (us ++ after) := by
  cases h <;> simp

theorem Data.middle {ws : List Token} {xs : List Value} (h : Data ts vs) (hw : Datum us w)
    (hws : Data ws xs) : Data (ts ++ (us ++ ws)) (vs ++ w :: xs) := by
  induction vs generalizing ts with
  | nil =>
      cases h
      rw [List.nil_append]
      exact .cons hw hws
  | cons v vs ih =>
      cases h with
      | cons hv hvs =>
          rw [List.append_assoc]
          exact .cons hv (ih hvs)

/-- What has a part is a datum with it. -/
theorem Part.whole (h : Part ts v before us after w) : Datum ts v := by
  cases h with
  | quoted mark hw => exact .quote mark hw
  | element bracket close hts hw hws => exact .list bracket close (hts.middle hw hws)
  | dottedElement bracket dot close hts hw hws htail =>
      exact .dotted bracket dot close (hts.middle hw hws) (by simp) htail
  | tail bracket dot close hts hne hw => exact .dotted bracket dot close hts hne hw

theorem Reads.datum (h : Reads ts vs before us after w) : Datum us w := by
  cases h with
  | top _ hw _ _ _ => exact hw
  | part _ hpart => exact hpart.datum

theorem Reads.tokens_eq (h : Reads ts vs before us after w) : ts = before ++ (us ++ after) := by
  induction h with
  | top _ _ _ hts _ => exact hts
  | part _ hpart ih =>
      rw [ih, hpart.tokens_eq]
      simp

/-! ## Spans and tokens -/

/-- The span goes from the first of the tokens to the last. -/
def Extent (ts : List Token) (s : Span) : Prop :=
  ∃ first ∈ ts.head?, ∃ last ∈ ts.getLast?, s = ⟨first.span.start, last.span.stop⟩

/-- With a token in front, the extent starts there. -/
theorem Extent.cons {t : Token} {s : Span} (h : Extent ts s) (hordered : Ordered (t :: ts)) :
    Extent (t :: ts) (t.span.merge s) := by
  obtain ⟨first, hfirst, last, hlast, rfl⟩ := h
  have hmem : last ∈ ts := List.mem_of_getLast? hlast
  have hbehind := List.rel_of_pairwise_cons hordered.apart (List.mem_of_mem_head? hfirst)
  have hbefore := List.rel_of_pairwise_cons hordered.apart hmem
  have ht := hordered.taken t List.mem_cons_self
  have hl := hordered.taken last (List.mem_cons_of_mem t hmem)
  refine ⟨t, rfl, last, ?_, ?_⟩
  · cases ts with
    | nil => cases hlast
    | cons u us => exact hlast
  · simp only [Span.merge, Span.mk.injEq]
    omega

theorem span_bracketed (bracket close : Span) (tail : Value) (vs : List Value) :
    (bracketed bracket close tail vs).span = bracket.merge close := by
  cases vs <;> rfl

theorem Extent.brackets {t u : Token} (h : Ordered (t :: (ts ++ [u]))) :
    Extent (t :: (ts ++ [u])) (t.span.merge u.span) := by
  have hpair : Ordered [t, u] :=
    h.of_sublist ((List.sublist_append_right ts [u]).cons_cons t)
  obtain ⟨first, ⟨⟩, last, ⟨⟩, hspan⟩ := Extent.cons ⟨u, rfl, u, rfl, rfl⟩ hpair
  refine ⟨t, rfl, u, ?_, hspan⟩
  rw [← List.cons_append, List.getLast?_concat]
  rfl

/-- The span of a datum is the extent of its tokens. -/
theorem Datum.extent {ts : List Token} {v : Value} (h : Datum ts v) (hordered : Ordered ts) :
    Extent ts v.span :=
  match h with
  | .atom (t := t) hv => by
      refine ⟨t, rfl, t, rfl, ?_⟩
      unfold atom? at hv
      split at hv <;> cases hv <;> rfl
  | .quote mark hv =>
      (hv.extent (hordered.of_sublist (List.sublist_cons_self _ _))).cons hordered
  | .list bracket close _ => by
      rw [span_bracketed]
      exact Extent.brackets hordered
  | .dotted bracket dot close _ _ _ => by
      rw [span_bracketed]
      rw [← List.cons_append (a := (⟨.dot, dot⟩ : Token)), ← List.append_assoc] at hordered ⊢
      exact Extent.brackets hordered

/-- What is a datum further on is one further to the front. -/
theorem Datum.unshift {n : Nat} (h : Datum (us.map (Token.shift n)) w) :
    ∃ v, Datum us v ∧ v.shift n = w := by
  have hsingle := Reader.single_shift n us
  rw [Reader.single_eq_ok_iff.mpr h] at hsingle
  cases hread : Reader.single us with
  | error e =>
      rw [hread] at hsingle
      cases hsingle
  | ok v =>
      rw [hread] at hsingle
      exact ⟨v, Reader.single_eq_ok_iff.mp hread, (Except.ok.inj hsingle).symm⟩

end Grammar

open Grammar (Datum Data Part Reads Extent)

/-! ## Spans and texts -/

/-- The span is that of the characters `part`, which stand behind `before` in the text. -/
def Span.Cuts (s : Span) (text : String) (before part : List Char) : Prop :=
  (∃ after, text.toList = before ++ (part ++ after)) ∧
    s = ⟨Text.bytes before, Text.bytes before + Text.bytes part⟩

theorem readOne_eq_ok_iff {text : String} {v : Value} :
    readOne text = .ok v ↔ ∃ ts, tokenize text = .ok ts ∧ Datum ts v := by
  simp only [readOne, lexemes_bind_eq_ok_iff, Reader.single_eq_ok_iff]

/-- What is read from tokens of a text is read as well from the part of the text that they take. -/
theorem Grammar.Datum.readOne_part {text : String} {before us after : List Token} {w : Value}
    (h : Datum us w) (hlaid : Laid 0 text.toList (before ++ (us ++ after))) :
    Extent us w.span ∧ ∃ front part v, w.span.Cuts text front part ∧
      readOne (.ofList part) = .ok v ∧ v.shift (Text.bytes front) = w := by
  obtain ⟨front, part, back, htext, hpart, hstart, hstop⟩ := hlaid.part
  rw [Nat.zero_add] at hstart hstop
  have hextent := h.extent hpart.ordered.1
  refine ⟨hextent, front, part, ?_⟩
  obtain ⟨us', rfl, hus'⟩ := hpart.unshift
  obtain ⟨v, hv, rfl⟩ := h.unshift
  have htokens : tokenize (.ofList part) = .ok us' := by
    rw [Lexer.tokenize_eq_ok_iff, String.toList_ofList]
    exact hus'
  refine ⟨v, ⟨⟨back, htext⟩, ?_⟩, readOne_eq_ok_iff.mpr ⟨us', htokens, hv⟩, rfl⟩
  obtain ⟨first, hfirst, last, hlast, hspan⟩ := hextent
  rw [hspan, hstart first hfirst, hstop last hlast]

/-- Every expression that is read in a text, at whatever depth, spans its tokens from the first
to the last; its span cuts a part out of the text that is read as the same expression, with all
spans further to the front. -/
theorem span_of_readProgram {text : String} {vs : List Value} (h : readProgram text = .ok vs) :
    ∃ ts, tokenize text = .ok ts ∧ Data ts vs ∧
      ∀ before us after w, Reads ts vs before us after w →
        ts = before ++ (us ++ after) ∧ Extent us w.span ∧
          ∃ front part v, w.span.Cuts text front part ∧ readOne (.ofList part) = .ok v ∧
            v.shift (Text.bytes front) = w := by
  obtain ⟨ts, htokens, hdata⟩ := readProgram_eq_ok_iff.mp h
  refine ⟨ts, htokens, hdata, fun before us after w hreads => ⟨hreads.tokens_eq, ?_⟩⟩
  have hlaid := Lexer.tokenize_eq_ok_iff.mp htokens
  rw [hreads.tokens_eq] at hlaid
  exact hreads.datum.readOne_part hlaid

/-- In the tail of a list, behind a string with more bytes than characters, `b` is quoted; it is
read at the bytes from 11 to 12, and so it is in the text that is there. -/
theorem span_of_readProgram_tail :
    let text := "\"é\" (a . 'b)"
    let a := Value.symbol "a" ⟨6, 7⟩
    let b := Value.symbol "b" ⟨11, 12⟩
    readProgram text = .ok [.string "é" ⟨0, 4⟩,
        .pair .anonymous a (Grammar.quoted ⟨10, 11⟩ b) ⟨5, 13⟩] ∧
      Extent [⟨.symbol "b", ⟨11, 12⟩⟩] b.span ∧
      ∃ front part v, b.span.Cuts text front part ∧ readOne (.ofList part) = .ok v ∧
        v.shift (Text.bytes front) = b := by
  intro text a b
  have hread : readProgram text = .ok [.string "é" ⟨0, 4⟩,
      .pair .anonymous a (Grammar.quoted ⟨10, 11⟩ b) ⟨5, 13⟩] := by decide +kernel
  have htext : tokenize text = .ok [⟨.string "é", ⟨0, 4⟩⟩, ⟨.openParen, ⟨5, 6⟩⟩,
      ⟨.symbol "a", ⟨6, 7⟩⟩, ⟨.dot, ⟨8, 9⟩⟩, ⟨.quote, ⟨10, 11⟩⟩, ⟨.symbol "b", ⟨11, 12⟩⟩,
      ⟨.closeParen, ⟨12, 13⟩⟩] := by decide +kernel
  have hb : Datum [⟨.symbol "b", ⟨11, 12⟩⟩] b := .atom rfl
  have hquoted : Datum [⟨.quote, ⟨10, 11⟩⟩, ⟨.symbol "b", ⟨11, 12⟩⟩] (Grammar.quoted ⟨10, 11⟩ b) :=
    .quote ⟨10, 11⟩ hb
  have ha : Data [⟨.symbol "a", ⟨6, 7⟩⟩] [a] := .cons (.atom rfl) .nil
  have hstring : Data [⟨.string "é", ⟨0, 4⟩⟩] [.string "é" ⟨0, 4⟩] := .cons (.atom rfl) .nil
  have htail := Part.tail ⟨5, 6⟩ ⟨8, 9⟩ ⟨12, 13⟩ ha (List.cons_ne_nil _ _) hquoted
  have htop := Reads.top hstring htail.whole .nil rfl rfl
  refine ⟨hread, ?_⟩
  obtain ⟨ts, htokens, -, hall⟩ := span_of_readProgram hread
  rw [htext] at htokens
  cases htokens
  exact (hall _ _ _ _ (.part (.part htop htail) (.quoted ⟨10, 11⟩ hb))).2

end DualScope
