import DualScope.Proofs.Displacement
import DualScope.Proofs.Lexemes

/-!
# How tokens lie in a text

A text that is split without a fault is *laid out*: its characters are those of the tokens, with
blanks and comments between them. In a layout every token stands in front of the next one, takes
at least a byte, and starts and stops where characters do.

A layout can be cut in front of a token or behind one, and either part is laid out as before.
For the part in front the lexer comes to the end of the text where there were more characters,
and a token does not mind that: a literal is closed already, and a run goes on for as long as
there are symbol characters. In general one may change what follows a token, as long as it does
not start with a character with which a run could go on or for whose sake a run could be a
fault (`Continues`). A line feed is no such character, and it ends a comment; so it can be put
behind any layout.
-/

namespace DualScope

namespace Lexer

open Text (bytes)

/-- The characters from byte `pos` on are the tokens, with blanks and comments between them. -/
inductive Laid : Nat → List Char → List Token → Prop
  | nil (pos : Nat) : Laid pos [] []
  | blank {pos : Nat} {c : Char} {cs : List Char} {ts : List Token} : isBlank c = true →
    Laid (pos + c.utf8Size) cs ts → Laid pos (c :: cs) ts
  | comment {pos : Nat} {cs : List Char} {ts : List Token} :
    Laid (pos + bytes (';' :: cs.takeWhile inComment)) (cs.dropWhile inComment) ts →
      Laid pos (';' :: cs) ts
  | token {pos : Nat} {c : Char} {cs taken rest : List Char} {kind : Token.Kind}
    {ts : List Token} : isBlank c = false → c ≠ ';' → munch c cs = (.ok kind, taken, rest) →
      Laid (pos + bytes taken) rest ts →
        Laid pos (c :: cs) (⟨kind, ⟨pos, pos + bytes taken⟩⟩ :: ts)

variable {pos : Nat} {cs : List Char} {ts us : List Token}

/-! ## Layouts and the lexer -/

theorem split_comment (found : List Token) (pos : Nat) (cs : List Char) :
    split found pos (';' :: cs) =
      split found (pos + bytes (';' :: cs.takeWhile inComment)) (cs.dropWhile inComment) := by
  rw [split, if_neg (by decide), if_pos rfl]

theorem Laid.split_eq (h : Laid pos cs ts) (found : List Token) :
    split found pos cs = .ok (found.reverse ++ ts) := by
  induction h generalizing found with
  | nil pos => rw [split, List.append_nil]
  | blank hc _ ih => rw [split_blank hc, ih]
  | comment _ ih => rw [split_comment, ih]
  | token hc hcomment hmunch _ ih => rw [split_token hc hcomment hmunch, ih]; simp

theorem laid_of_split {found : List Token} (h : split found pos cs = .ok ts) :
    ∃ more, ts = found.reverse ++ more ∧ Laid pos cs more := by
  fun_induction split found pos cs with
  | case1 found pos =>
      cases h
      exact ⟨[], (List.append_nil _).symm, .nil pos⟩
  | case2 found pos c cs hblank ih =>
      obtain ⟨more, rfl, hmore⟩ := ih h
      exact ⟨more, rfl, .blank hblank hmore⟩
  | case3 found pos cs hblank ih =>
      obtain ⟨more, rfl, hmore⟩ := ih h
      exact ⟨more, rfl, .comment hmore⟩
  | case4 found pos c cs hblank hcomment next span kind hkind ih =>
      obtain ⟨more, rfl, hmore⟩ := ih h
      have hmunch : munch c cs = (.ok kind, next.2.1, next.2.2) := Prod.ext hkind rfl
      refine ⟨⟨kind, span⟩ :: more, by simp, ?_⟩
      exact .token (Bool.eq_false_iff.mpr hblank) hcomment hmunch hmore
  | case5 => cases h

theorem tokenize_eq_ok_iff {text : String} :
    tokenize text = .ok ts ↔ Laid 0 text.toList ts := by
  refine ⟨fun h => ?_, fun h => h.split_eq []⟩
  obtain ⟨more, rfl, hmore⟩ := laid_of_split h
  exact hmore

/-! ## Stages of the lexer -/

/-- The lexer has come as far as byte `pos` of the text on its way to the answer: the tokens up to
there are found, and `cs` is still to be split. -/
structure Stage (text : List Char) (answer : Except LexError (List Token)) (found : List Token)
    (pos : Nat) (cs : List Char) : Prop where
  front : ∃ front, text = front ++ cs ∧ bytes front = pos
  behind : ∀ t ∈ found, t.span.stop ≤ pos
  split : split found pos cs = answer

namespace Stage

variable {text : List Char} {answer : Except LexError (List Token)} {found found' : List Token}

theorem start (text : List Char) : Stage text (Lexer.split [] 0 text) [] 0 text :=
  ⟨⟨[], rfl, rfl⟩, by simp, rfl⟩

theorem advance {as bs : List Char} (h : Stage text answer found pos (as ++ bs))
    (hfound : ∀ t ∈ found', t ∈ found ∨ t.span.stop = pos + bytes as)
    (hsplit : Lexer.split found pos (as ++ bs) = Lexer.split found' (pos + bytes as) bs) :
    Stage text answer found' (pos + bytes as) bs where
  front := by
    obtain ⟨front, rfl, rfl⟩ := h.front
    exact ⟨front ++ as, (List.append_assoc front as bs).symm, Text.bytes_append front as⟩
  behind t ht := by
    rcases hfound t ht with ht | hstop
    · exact Nat.le_trans (h.behind t ht) (Nat.le_add_right _ _)
    · exact Nat.le_of_eq hstop
  split := hsplit.symm.trans h.split

theorem blank {c : Char} (h : Stage text answer found pos (c :: cs)) (hc : isBlank c = true) :
    Stage text answer found (pos + c.utf8Size) cs := by
  rw [← List.singleton_append] at h
  exact h.advance (fun _ => .inl) (split_blank hc found pos cs)

theorem comment (h : Stage text answer found pos (';' :: cs)) :
    Stage text answer found (pos + bytes (';' :: cs.takeWhile inComment))
      (cs.dropWhile inComment) := by
  have hcs : ';' :: cs.takeWhile inComment ++ cs.dropWhile inComment = ';' :: cs := by simp
  rw [← hcs] at h
  refine h.advance (fun _ => .inl) ?_
  rw [hcs, split_comment]

theorem token {c : Char} {taken rest : List Char} {kind : Token.Kind}
    (h : Stage text answer found pos (c :: cs)) (hc : isBlank c = false) (hcomment : c ≠ ';')
    (hmunch : munch c cs = (.ok kind, taken, rest)) :
    Stage text answer (⟨kind, ⟨pos, pos + bytes taken⟩⟩ :: found) (pos + bytes taken) rest := by
  have hcs := (lexeme_of_munch hmunch).1
  rw [← hcs] at h
  refine h.advance (fun t ht => ?_) ?_
  · rcases List.mem_cons.mp ht with rfl | ht
    · exact .inr rfl
    · exact .inl ht
  · rw [hcs, split_token hc hcomment hmunch]

end Stage

/-! ## What follows a token -/

/-- Where `rest` may follow a token, `rest'` may do so as well. -/
def Continues (rest rest' : List Char) : Prop :=
  ∀ c ∈ rest'.head?, c ∈ rest.head? ∨ inSymbol c = false ∧ Text.opensLikePictograph c = false

theorem Continues.of_prefix {rest rest' : List Char} (h : rest' <+: rest) :
    Continues rest rest' := by
  obtain ⟨more, rfl⟩ := h
  intro c hc
  left
  rw [List.head?_append, hc, Option.some_or]
  rfl

theorem Continues.append_delimited (rest : List Char) {ds : List Char} (h : Delimited ds) :
    Continues rest (rest ++ ds) := by
  cases rest with
  | nil => exact fun c hc => .inr (h c hc)
  | cons d rest => exact fun c hc => .inl hc

theorem literal_inside {inner : List Char} (h : Inside inner) (taken rest : List Char) :
    literal taken (inner ++ '"' :: rest) = (taken.reverse ++ (inner ++ ['"']), rest) := by
  induction h generalizing taken with
  | nil => simp [literal]
  | @plain c cs hquote hbackslash _ ih =>
      rw [List.cons_append, literal.eq_6 taken c _ hquote (fun h => absurd h hbackslash)
        (fun _ h => absurd h hbackslash) (fun _ _ h => absurd h hbackslash), ih]
      simp
  | @escape c cs hline _ ih =>
      rw [List.cons_append, List.cons_append, literal.eq_5 taken c _ hline, ih]
      simp

theorem readRun_of_continues {run rest rest' : List Char} {kind : Token.Kind}
    (h : readRun run rest = .ok kind) (hrest : Continues rest rest') :
    readRun run rest' = .ok kind := by
  rw [eq_classify_of_readRun h]
  cases rest' with
  | nil => exact readRun_of_delimited delimited_nil run
  | cons c rest' =>
      rcases hrest c rfl with hc | ⟨-, hopens⟩
      · rw [eq_classify_of_readRun h] at h
        rw [readRun, Option.mem_def.mp hc] at h
        exact h
      · exact if_neg (by simp [hopens])

theorem false_of_mem_head?_dropWhile {p : Char → Bool} {c : Char}
    (h : c ∈ (cs.dropWhile p).head?) : p c = false := by
  have hnot := List.head?_dropWhile_not p cs
  rw [Option.mem_def.mp h] at hnot
  exact hnot

/-- A token is the same in front of another rest. -/
theorem munch_of_continues {c : Char} {cs taken rest rest' : List Char} {kind : Token.Kind}
    (h : munch c cs = (.ok kind, taken, rest)) (hrest : Continues rest rest') :
    ∃ more, taken = c :: more ∧ munch c (more ++ rest') = (.ok kind, taken, rest') := by
  by_cases hquote : c = '"'
  · subst hquote
    obtain ⟨body, after, hmunch, hends⟩ := munch_quote cs
    rw [hmunch] at h
    injection h with hread h
    injection h with htaken hafter
    subst htaken hafter
    obtain ⟨-, inner, hinner, rfl⟩ := hends.of_ok hread
    refine ⟨_, rfl, ?_⟩
    have hliteral : literal [] (inner ++ ['"'] ++ rest') = (inner ++ ['"'], rest') := by
      rw [List.append_assoc, List.singleton_append, literal_inside hinner]
      rfl
    show (readLiteral (literal [] _).1, '"' :: (literal [] _).1, (literal [] _).2) = _
    rw [hliteral, hread]
  by_cases hsymbol : inSymbol c = true
  · rw [munch_symbol hsymbol] at h
    injection h with hread h
    injection h with htaken hafter
    subst htaken hafter
    have hrun : ∀ d ∈ cs.takeWhile inSymbol, inSymbol d = true :=
      fun d hd => List.mem_takeWhile_imp hd
    have hstop : ∀ d ∈ rest'.head?, inSymbol d = false := fun d hd =>
      (hrest d hd).elim false_of_mem_head?_dropWhile And.left
    refine ⟨_, rfl, ?_⟩
    rw [munch_symbol hsymbol, Text.takeWhile_run hrun rest' hstop,
      Text.dropWhile_run hrun rest' hstop, readRun_of_continues hread hrest]
  -- What is left are the tokens of one character, whatever follows it.
  refine ⟨[], ?_⟩
  unfold munch at h ⊢
  split at h
  · next hc =>
    cases h
    exact ⟨rfl, if_pos hc⟩
  split at h
  · next hopen hc =>
    cases h
    exact ⟨rfl, (if_neg hopen).trans (if_pos hc)⟩
  split at h
  · next hopen hclose hc =>
    cases h
    exact ⟨rfl, (if_neg hopen).trans ((if_neg hclose).trans (if_pos hc))⟩
  cases h

/-! ## A line feed behind a layout -/

/-- What is behind the line feed is split as if the tokens had been found before. -/
theorem Laid.spells_line (h : Laid pos cs ts) (rest : List Char) :
    Spells cs pos ts ('\n' :: rest) := by
  induction h with
  | nil pos => exact .nil pos _
  | blank hc _ ih => exact .blank hc ih
  | @comment pos cs ts _ ih =>
      intro found
      have hrun : ∀ c ∈ cs.takeWhile inComment, inComment c = true :=
        fun c hc => List.mem_takeWhile_imp hc
      have hstop : ∀ c ∈ (cs.dropWhile inComment ++ '\n' :: rest).head?, inComment c = false := by
        cases hcs : cs.dropWhile inComment with
        | nil =>
            rintro c ⟨⟩
            rfl
        | cons d ds =>
            rintro c ⟨⟩
            exact false_of_mem_head?_dropWhile (by rw [hcs]; rfl)
      have hcs : cs ++ '\n' :: rest =
          cs.takeWhile inComment ++ (cs.dropWhile inComment ++ '\n' :: rest) := by
        rw [← List.append_assoc, List.takeWhile_append_dropWhile]
      rw [List.cons_append, split_comment, hcs, Text.takeWhile_run hrun _ hstop,
        Text.dropWhile_run hrun _ hstop, ih]
      rw [Nat.add_assoc, ← Text.bytes_append, List.cons_append, List.takeWhile_append_dropWhile]
  | @token pos c cs taken rest' kind ts hc hcomment hmunch _ ih =>
      obtain ⟨happend, -⟩ := lexeme_of_munch hmunch
      have hline : Delimited ('\n' :: rest) := delimited_cons (.inr (.inl rfl)) rest
      obtain ⟨more, rfl, hmunch'⟩ :=
        munch_of_continues hmunch (Continues.append_delimited rest' hline)
      have htoken := Spells.token pos hc hcomment hmunch'
      rw [← happend]
      exact htoken.append ih

/-! ## Layouts cut in two -/

/-- From the first of the last tokens on, a layout is a layout. -/
theorem Laid.drop (h : Laid pos cs (ts ++ us)) :
    ∃ as bs, cs = as ++ bs ∧ Laid (pos + bytes as) bs us ∧
      ∀ u ∈ us.head?, u.span.start = pos + bytes as := by
  generalize hall : ts ++ us = all at h
  induction h generalizing ts with
  | nil pos =>
      obtain ⟨-, rfl⟩ := List.append_eq_nil_iff.mp hall
      exact ⟨[], [], rfl, .nil pos, by simp⟩
  | @blank pos c cs _ hc _ ih =>
      obtain ⟨as, bs, rfl, hbs, hstart⟩ := ih hall
      rw [Nat.add_assoc, ← Text.bytes_cons] at hbs hstart
      exact ⟨c :: as, bs, rfl, hbs, hstart⟩
  | @comment pos cs _ _ ih =>
      obtain ⟨as, bs, hcs, hbs, hstart⟩ := ih hall
      rw [Nat.add_assoc, ← Text.bytes_append] at hbs hstart
      refine ⟨_, bs, ?_, hbs, hstart⟩
      rw [List.append_assoc, ← hcs, List.cons_append, List.takeWhile_append_dropWhile]
  | @token pos c cs taken rest kind more hc hcomment hmunch hmore ih =>
      cases ts with
      | nil =>
          cases hall
          exact ⟨[], c :: cs, rfl, .token hc hcomment hmunch hmore, by simp⟩
      | cons t ts =>
          obtain ⟨rfl, hrest⟩ := List.cons.inj hall
          obtain ⟨as, bs, rfl, hbs, hstart⟩ := ih hrest
          rw [Nat.add_assoc, ← Text.bytes_append] at hbs hstart
          refine ⟨taken ++ as, bs, ?_, hbs, hstart⟩
          rw [List.append_assoc, (lexeme_of_munch hmunch).1]

theorem Laid.of_comment {run rest : List Char} (hrun : ∀ c ∈ run, inComment c = true)
    (hstop : ∀ c ∈ rest.head?, inComment c = false)
    (h : Laid (pos + bytes (';' :: run)) rest ts) : Laid pos (';' :: (run ++ rest)) ts := by
  refine .comment ?_
  rw [Text.takeWhile_run hrun rest hstop, Text.dropWhile_run hrun rest hstop]
  exact h

/-- Up to the last of the first tokens, a layout is a layout. -/
theorem Laid.take (h : Laid pos cs (us ++ ts)) :
    ∃ as bs, cs = as ++ bs ∧ Laid pos as us ∧
      ∀ u ∈ us.getLast?, u.span.stop = pos + bytes as := by
  generalize hall : us ++ ts = all at h
  induction h generalizing us with
  | nil pos =>
      obtain ⟨rfl, -⟩ := List.append_eq_nil_iff.mp hall
      exact ⟨[], [], rfl, .nil pos, by simp⟩
  | @blank pos c cs _ hc _ ih =>
      obtain ⟨as, bs, rfl, has, hstop⟩ := ih hall
      refine ⟨c :: as, bs, rfl, .blank hc has, ?_⟩
      rw [Text.bytes_cons, ← Nat.add_assoc]
      exact hstop
  | @comment pos cs _ _ ih =>
      obtain ⟨as, bs, hcs, has, hstop⟩ := ih hall
      refine ⟨';' :: (cs.takeWhile inComment ++ as), bs, ?_, .of_comment ?_ ?_ has, ?_⟩
      · rw [List.cons_append, List.append_assoc, ← hcs, List.takeWhile_append_dropWhile]
      · exact fun c hc => List.mem_takeWhile_imp hc
      · intro c hc
        have hhead : c ∈ (cs.dropWhile inComment).head? := by
          rw [hcs, List.head?_append, Option.mem_def.mp hc]
          rfl
        exact false_of_mem_head?_dropWhile hhead
      · rw [← List.cons_append, Text.bytes_append, ← Nat.add_assoc]
        exact hstop
  | @token pos c cs taken rest kind more hc hcomment hmunch hmore ih =>
      match us with
      | [] => exact ⟨[], c :: cs, rfl, .nil pos, by simp⟩
      | [u] =>
          obtain ⟨rfl, hrest⟩ := List.cons.inj hall
          obtain ⟨front, rfl, hmunch'⟩ :=
            munch_of_continues hmunch (Continues.of_prefix List.nil_prefix)
          refine ⟨c :: front, rest, (lexeme_of_munch hmunch).1.symm, ?_, by simp⟩
          rw [List.append_nil] at hmunch'
          exact .token hc hcomment hmunch' (.nil _)
      | u :: v :: us =>
          obtain ⟨rfl, hrest⟩ := List.cons.inj hall
          obtain ⟨as, bs, rfl, has, hstop⟩ := ih hrest
          obtain ⟨front, rfl, hmunch'⟩ :=
            munch_of_continues hmunch (Continues.of_prefix (List.prefix_append as bs))
          refine ⟨c :: front ++ as, bs, ?_, .token hc hcomment hmunch' has, ?_⟩
          · rw [List.append_assoc, (lexeme_of_munch hmunch).1]
          · rw [List.getLast?_cons_cons, Text.bytes_append, ← Nat.add_assoc]
            exact hstop

/-- Tokens that follow one another in a layout are laid out themselves, in the characters from
the first of them to the last one. -/
theorem Laid.part {before after : List Token} (h : Laid pos cs (before ++ (us ++ after))) :
    ∃ as bs ds, cs = as ++ (bs ++ ds) ∧ Laid (pos + bytes as) bs us ∧
      (∀ u ∈ us.head?, u.span.start = pos + bytes as) ∧
      ∀ u ∈ us.getLast?, u.span.stop = pos + bytes as + bytes bs := by
  obtain ⟨as, rest, rfl, hrest, hstart⟩ := h.drop
  obtain ⟨bs, ds, rfl, hbs, hstop⟩ := hrest.take
  refine ⟨as, bs, ds, rfl, hbs, fun u hu => hstart u ?_, hstop⟩
  rw [List.head?_append, Option.mem_def.mp hu]
  rfl

/-! ## The order of the tokens -/

/-- Tokens that stand one behind the other, each of at least one byte. -/
structure Ordered (ts : List Token) : Prop where
  taken : ∀ t ∈ ts, t.span.start < t.span.stop
  apart : ts.Pairwise fun t u => t.span.stop ≤ u.span.start

theorem Ordered.of_sublist (h : Ordered us) (hts : ts.Sublist us) : Ordered ts :=
  ⟨fun t ht => h.taken t (hts.subset ht), h.apart.sublist hts⟩

theorem bytes_pos {cs : List Char} (h : cs ≠ []) : 0 < bytes cs :=
  Nat.pos_of_ne_zero fun hzero => h (Text.eq_nil_of_bytes hzero)

/-- The tokens of a layout are in order, and each is within the text. -/
theorem Laid.ordered (h : Laid pos cs ts) :
    Ordered ts ∧ ∀ t ∈ ts, pos ≤ t.span.start ∧ t.span.stop ≤ pos + bytes cs := by
  induction h with
  | nil pos => exact ⟨⟨by simp, .nil⟩, by simp⟩
  | @blank pos c cs ts _ _ ih =>
      refine ⟨ih.1, fun t ht => ?_⟩
      obtain ⟨hstart, hstop⟩ := ih.2 t ht
      rw [Text.bytes_cons]
      omega
  | @comment pos cs ts _ ih =>
      refine ⟨ih.1, fun t ht => ?_⟩
      obtain ⟨hstart, hstop⟩ := ih.2 t ht
      have hcs : bytes cs = bytes (cs.takeWhile inComment) + bytes (cs.dropWhile inComment) := by
        rw [← Text.bytes_append, List.takeWhile_append_dropWhile]
      rw [Text.bytes_cons] at hstart hstop ⊢
      omega
  | @token pos c cs taken rest kind ts _ _ hmunch _ ih =>
      have hcs := congrArg bytes (lexeme_of_munch hmunch).1
      have htaken : 0 < bytes taken := by
        obtain ⟨more, rfl, -⟩ := munch_of_continues hmunch (Continues.of_prefix List.nil_prefix)
        exact bytes_pos (List.cons_ne_nil c more)
      rw [Text.bytes_append] at hcs
      rw [← hcs]
      refine ⟨⟨?_, ?_⟩, ?_⟩
      · exact List.forall_mem_cons.mpr ⟨Nat.lt_add_of_pos_right htaken, ih.1.taken⟩
      · exact .cons (fun t ht => (ih.2 t ht).1) ih.1.apart
      · refine List.forall_mem_cons.mpr ⟨⟨Nat.le_refl pos, ?_⟩, fun t ht => ?_⟩
        · show pos + bytes taken ≤ _
          omega
        · obtain ⟨hstart, hstop⟩ := ih.2 t ht
          omega

/-- With bytes in front of it, the text is laid out in the same way further on. -/
theorem Laid.unshift {n : Nat} (h : Laid (pos + n) cs ts) :
    ∃ us, ts = us.map (Token.shift n) ∧ Laid pos cs us := by
  have hsplit := split_shift n [] pos cs
  rw [List.map_nil, h.split_eq] at hsplit
  cases hus : split [] pos cs with
  | error e =>
      rw [hus] at hsplit
      cases hsplit
  | ok us =>
      rw [hus] at hsplit
      obtain ⟨more, rfl, hmore⟩ := laid_of_split hus
      exact ⟨_, Except.ok.inj hsplit, hmore⟩

end Lexer

end DualScope
