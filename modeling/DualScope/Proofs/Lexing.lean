import DualScope.Proofs.Spelling
import DualScope.Token.Lexer

/-!
# Written data as tokens

What the lexer makes of a text depends on the characters that follow it: a run goes on as
far as symbol characters go. `Spells` is said of characters in front of a given rest, and
of any tokens found before them, so that the characters of two parts are put together as
their tokens are.

A run is followed in written data by a blank, a line feed or a closing bracket. In front
of these it is one token, and which one is decided by the run alone. A literal ends by
itself, whatever follows: a quote or a backslash in the text is written behind a
backslash, which is what keeps the lexer from ending at it.

Of a name that is one symbol as a whole nothing is known but that it is. That the name is
one run follows from this: with a blank or a comment in it, or a second token, the symbol
would have fewer characters than its own name.
-/

namespace DualScope.Lexer

/-! ## Splitting in parts -/

theorem split_blank {c : Char} (h : isBlank c = true) (found : List Token) (pos : Nat)
    (cs : List Char) : split found pos (c :: cs) = split found (pos + c.utf8Size) cs := by
  rw [split, if_pos h]

theorem split_token {c : Char} {cs taken rest : List Char} {kind : Token.Kind}
    (hblank : isBlank c = false) (hcomment : c ≠ ';') (h : munch c cs = (.ok kind, taken, rest))
    (found : List Token) (pos : Nat) :
    split found pos (c :: cs) =
      split (⟨kind, ⟨pos, pos + Text.bytes taken⟩⟩ :: found) (pos + Text.bytes taken) rest := by
  rw [split, if_neg (by simp [hblank]), if_neg hcomment, h]

/-- The characters from byte `pos` on are the tokens, where `rest` follows them. -/
def Spells (cs : List Char) (pos : Nat) (ts : List Token) (rest : List Char) : Prop :=
  ∀ found, split found pos (cs ++ rest) = split (ts.reverse ++ found) (pos + Text.bytes cs) rest

theorem Spells.nil (pos : Nat) (rest : List Char) : Spells [] pos [] rest :=
  fun _ => rfl

theorem Spells.append {cs ds rest : List Char} {pos : Nat} {ts us : List Token}
    (h : Spells cs pos ts (ds ++ rest)) (h' : Spells ds (pos + Text.bytes cs) us rest) :
    Spells (cs ++ ds) pos (ts ++ us) rest := by
  intro found
  rw [List.append_assoc, h, h', Text.bytes_append, Nat.add_assoc, List.reverse_append,
    List.append_assoc]

theorem Spells.blank {c : Char} {cs rest : List Char} {pos : Nat} {ts : List Token}
    (hc : isBlank c = true) (h : Spells cs (pos + c.utf8Size) ts rest) :
    Spells (c :: cs) pos ts rest := by
  intro found
  rw [List.cons_append, split_blank hc, h, Text.bytes_cons, Nat.add_assoc]

theorem Spells.token {c : Char} {cs rest : List Char} {kind : Token.Kind} (pos : Nat)
    (hblank : isBlank c = false) (hcomment : c ≠ ';')
    (h : munch c (cs ++ rest) = (.ok kind, c :: cs, rest)) :
    Spells (c :: cs) pos [⟨kind, ⟨pos, pos + Text.bytes (c :: cs)⟩⟩] rest :=
  fun found => split_token hblank hcomment h found pos

theorem spells_openParen (pos : Nat) (rest : List Char) :
    Spells ['('] pos [⟨.openParen, ⟨pos, pos + 1⟩⟩] rest :=
  .token pos rfl (by decide) rfl

theorem spells_closeParen (pos : Nat) (rest : List Char) :
    Spells [')'] pos [⟨.closeParen, ⟨pos, pos + 1⟩⟩] rest :=
  .token pos rfl (by decide) rfl

/-! ## Runs -/

/-- No run of symbol characters goes on into the text, nor does one end in a fault for
its sake. -/
def Delimited (rest : List Char) : Prop :=
  ∀ c ∈ rest.head?, inSymbol c = false ∧ Text.opensLikePictograph c = false

theorem delimited_nil : Delimited [] := by
  simp [Delimited]

theorem delimited_cons {c : Char} (h : c = ' ' ∨ c = '\n' ∨ c = ')') (rest : List Char) :
    Delimited (c :: rest) := by
  rintro d ⟨⟩
  rcases h with rfl | rfl | rfl <;> decide

theorem ne_of_inSymbol {c d : Char} (hc : inSymbol c = true) (hd : inSymbol d = false) : c ≠ d := by
  rintro rfl
  rw [hc] at hd
  cases hd

theorem isBlank_of_inSymbol {c : Char} (h : inSymbol c = true) : isBlank c = false := by
  have hspace : c ≠ ' ' := ne_of_inSymbol h (by decide)
  have htab : c ≠ '\t' := ne_of_inSymbol h (by decide)
  have hline : c ≠ '\n' := ne_of_inSymbol h (by decide)
  have hreturn : c ≠ '\r' := ne_of_inSymbol h (by decide)
  simp [isBlank, hspace, htab, hline, hreturn]

theorem munch_symbol {c : Char} (h : inSymbol c = true) (cs : List Char) :
    munch c cs =
      (readRun (c :: cs.takeWhile inSymbol) (cs.dropWhile inSymbol), c :: cs.takeWhile inSymbol,
        cs.dropWhile inSymbol) := by
  rw [munch, if_neg (ne_of_inSymbol h (by decide)), if_neg (ne_of_inSymbol h (by decide)),
    if_neg (ne_of_inSymbol h (by decide)), if_neg (ne_of_inSymbol h (by decide)), if_pos h]

theorem readRun_of_delimited {rest : List Char} (hrest : Delimited rest) (run : List Char) :
    readRun run rest = .ok (classify run) := by
  refine if_neg ?_
  cases rest with
  | nil => simp
  | cons c rest => simp [(hrest c rfl).2]

theorem spells_run {run rest : List Char} (hne : run ≠ []) (hrun : ∀ c ∈ run, inSymbol c = true)
    (hrest : Delimited rest) (pos : Nat) :
    Spells run pos [⟨classify run, ⟨pos, pos + Text.bytes run⟩⟩] rest := by
  obtain ⟨c, cs, rfl⟩ := List.exists_cons_of_ne_nil hne
  have hc := hrun c List.mem_cons_self
  have hcs : ∀ d ∈ cs, inSymbol d = true := fun d hd => hrun d (List.mem_cons_of_mem c hd)
  have hstop : ∀ d ∈ rest.head?, inSymbol d = false := fun d hd => (hrest d hd).1
  refine .token pos (isBlank_of_inSymbol hc) (ne_of_inSymbol hc (by decide)) ?_
  rw [munch_symbol hc, Text.takeWhile_run hcs rest hstop, Text.dropWhile_run hcs rest hstop,
    readRun_of_delimited hrest]

/-- A dot between blanks is a token of its own. -/
theorem spells_dot (pos : Nat) (rest : List Char) :
    Spells ['.'] pos [⟨.dot, ⟨pos, pos + 1⟩⟩] (' ' :: rest) :=
  spells_run (List.cons_ne_nil _ _) (List.all_eq_true.mp rfl) (delimited_cons (.inl rfl) rest) pos

theorem spells_truth (b : Bool) {rest : List Char} (hrest : Delimited rest) (pos : Nat) :
    Spells (truthText b).toList pos
      [⟨.boolean b, ⟨pos, pos + Text.bytes (truthText b).toList⟩⟩] rest := by
  cases b with
  | true => exact spells_run (List.cons_ne_nil _ _) (List.all_eq_true.mp rfl) hrest pos
  | false => exact spells_run (List.cons_ne_nil _ _) (List.all_eq_true.mp rfl) hrest pos

/-! ## Literals -/

/-- A character that stands for itself is neither the quote nor a backslash; what
stands behind a backslash is no line feed, and is taken for the character again. -/
theorem escaped_cases (c : Char) :
    (Text.escaped c = [c] ∧ c ≠ '"' ∧ c ≠ '\\') ∨
      ∃ e, Text.escaped c = ['\\', e] ∧ e ≠ '\n' ∧ unescape? e = some c := by
  unfold Text.escaped Text.escape?
  split
  · next e hsome =>
    refine .inr ⟨e, rfl, ?_⟩
    split at hsome <;> cases hsome <;> decide
  · next hnone =>
    split at hnone
    case h_6 hquote hbackslash _ _ _ => exact .inl ⟨rfl, hquote, hbackslash⟩
    all_goals cases hnone

theorem literal_escaped (c : Char) (taken cs : List Char) :
    literal taken (Text.escaped c ++ cs) = literal ((Text.escaped c).reverse ++ taken) cs := by
  obtain ⟨hplain, hquote, hbackslash⟩ | ⟨e, hescape, hline, -⟩ := escaped_cases c
  · rw [hplain]
    exact literal.eq_6 taken c cs hquote (fun h => absurd h hbackslash)
      (fun _ h => absurd h hbackslash) (fun _ _ h => absurd h hbackslash)
  · rw [hescape]
    exact literal.eq_5 taken e cs hline

theorem contents_escaped (c : Char) (taken cs : List Char) :
    contents taken (Text.escaped c ++ cs) = contents (c :: taken) cs := by
  obtain ⟨hplain, -, hbackslash⟩ | ⟨e, hescape, -, hback⟩ := escaped_cases c
  · rw [hplain]
    exact contents.eq_4 taken c cs (fun h => absurd h hbackslash) (fun _ _ h => absurd h hbackslash)
  · rw [hescape, List.cons_append, List.singleton_append, contents, hback]

theorem literal_quoted (cs taken rest : List Char) :
    literal taken (cs.flatMap Text.escaped ++ '"' :: rest) =
      (taken.reverse ++ (cs.flatMap Text.escaped ++ ['"']), rest) := by
  induction cs generalizing taken with
  | nil => simp [literal]
  | cons c cs ih =>
      rw [List.flatMap_cons, List.append_assoc, literal_escaped, ih]
      simp

theorem contents_quoted (cs taken : List Char) :
    contents taken (cs.flatMap Text.escaped) = .ok (taken.reverse ++ cs) := by
  induction cs generalizing taken with
  | nil => simp [contents]
  | cons c cs ih =>
      rw [List.flatMap_cons, contents_escaped, ih]
      simp

theorem readLiteral_quoted (cs : List Char) :
    readLiteral (cs.flatMap Text.escaped ++ ['"']) = .ok (.string (.ofList cs)) := by
  rw [readLiteral, if_pos (by simp), List.dropLast_concat, contents_quoted]
  rfl

theorem spells_quoted (cs rest : List Char) (pos : Nat) :
    Spells (Text.quoted cs) pos
      [⟨.string (.ofList cs), ⟨pos, pos + Text.bytes (Text.quoted cs)⟩⟩] rest := by
  refine .token pos rfl (by decide) ?_
  rw [List.append_assoc, List.singleton_append, munch]
  simp [literal_quoted, readLiteral_quoted]

/-! ## Symbols -/

theorem classify_eq_symbol {run : List Char} {name : String} (h : classify run = .symbol name) :
    name.toList = run := by
  unfold classify at h
  repeat' split at h
  all_goals cases h
  exact String.toList_ofList

theorem readLiteral_ne_symbol (body : List Char) (name : String) :
    readLiteral body ≠ .ok (.symbol name) := by
  intro h
  unfold readLiteral at h
  split at h
  · cases hc : contents [] body.dropLast with
    | error fault =>
        rw [hc] at h
        cases h
    | ok cs =>
        rw [hc] at h
        cases h
  · cases h

theorem munch_eq_symbol {c : Char} {cs : List Char} {name : String}
    (h : (munch c cs).1 = .ok (.symbol name)) :
    inSymbol c = true ∧ name.toList = c :: cs.takeWhile inSymbol ∧
      classify name.toList = .symbol name := by
  unfold munch at h
  split at h
  · cases h
  split at h
  · cases h
  split at h
  · cases h
  split at h
  · exact absurd h (readLiteral_ne_symbol _ name)
  split at h
  · next hc =>
    have hkind : classify (c :: cs.takeWhile inSymbol) = .symbol name := by
      dsimp only [readRun] at h
      split at h
      · cases h
      · exact Except.ok.inj h
    have hname := classify_eq_symbol hkind
    exact ⟨hc, hname, hname ▸ hkind⟩
  · cases h

/-- No symbol is longer than the characters it is found in. -/
theorem split_symbols {found ts : List Token} {pos : Nat} {cs : List Char}
    (h : split found pos cs = .ok ts) :
    ∃ more, ts = found.reverse ++ more ∧
      ∀ name span, ⟨.symbol name, span⟩ ∈ more → name.toList.length ≤ cs.length := by
  fun_induction split found pos cs with
  | case1 found pos =>
      cases h
      exact ⟨[], by simp, by simp⟩
  | case2 found pos c cs hblank ih =>
      obtain ⟨more, rfl, hmore⟩ := ih h
      exact ⟨more, rfl, fun name span hmem => Nat.le_succ_of_le (hmore name span hmem)⟩
  | case3 found pos cs hblank ih =>
      obtain ⟨more, rfl, hmore⟩ := ih h
      refine ⟨more, rfl, fun name span hmem => Nat.le_succ_of_le ?_⟩
      exact Nat.le_trans (hmore name span hmem) (length_dropWhile_le inComment cs)
  | case4 found pos c cs hblank hcomment next span kind hkind ih =>
      obtain ⟨more, rfl, hmore⟩ := ih h
      refine ⟨⟨kind, span⟩ :: more, by simp, fun name span' hmem => ?_⟩
      cases hmem with
      | head =>
          obtain ⟨-, hname, -⟩ := munch_eq_symbol hkind
          rw [hname]
          exact Nat.succ_le_succ (List.takeWhile_sublist inSymbol).length_le
      | tail _ hmem =>
          exact Nat.le_succ_of_le (Nat.le_trans (hmore name span' hmem) (length_munch_le c cs))
  | case5 => cases h

/-- A name that is one symbol as a whole is one run: a blank or a comment in front would
leave fewer characters than the symbol has. -/
theorem run_of_tokenize {name : String} {span : Span}
    (h : tokenize name = .ok [⟨.symbol name, span⟩]) :
    name.toList ≠ [] ∧ (∀ c ∈ name.toList, inSymbol c = true) ∧
      classify name.toList = .symbol name := by
  have hshort {pos : Nat} {cs : List Char} (hs : split [] pos cs = .ok [⟨.symbol name, span⟩]) :
      name.toList.length ≤ cs.length := by
    obtain ⟨more, rfl, hle⟩ := split_symbols hs
    exact hle name span List.mem_cons_self
  unfold tokenize at h
  cases hcs : name.toList with
  | nil =>
      rw [hcs, split] at h
      cases h
  | cons c cs =>
      rw [hcs, split] at h
      split at h
      · exact absurd (hshort h) (by simp [hcs])
      split at h
      · have hle := Nat.le_trans (hshort h) (length_dropWhile_le inComment cs)
        exact absurd hle (by simp [hcs])
      dsimp only at h
      split at h
      · next kind hkind =>
        obtain ⟨more, hmore, -⟩ := split_symbols h
        cases hmore
        obtain ⟨hc, hname, hclass⟩ := munch_eq_symbol hkind
        rw [hcs] at hname hclass
        have hrun : cs = cs.takeWhile inSymbol := (List.cons.inj hname).2
        refine ⟨List.cons_ne_nil c cs, fun d hd => ?_, hclass⟩
        rcases List.mem_cons.mp hd with rfl | hd
        · exact hc
        · rw [hrun] at hd
          exact List.all_eq_true.mp List.all_takeWhile d hd
      · cases h

theorem spells_symbol {name : String} {span : Span} (h : tokenize name = .ok [⟨.symbol name, span⟩])
    {rest : List Char} (hrest : Delimited rest) (pos : Nat) :
    Spells name.toList pos [⟨.symbol name, ⟨pos, pos + Text.bytes name.toList⟩⟩] rest := by
  obtain ⟨hne, hrun, hclass⟩ := run_of_tokenize h
  have hspells := spells_run hne hrun hrest pos
  rw [hclass] at hspells
  exact hspells

/-! ## Numbers -/

theorem inSymbol_of_isDigit {c : Char} (h : c.isDigit = true) : inSymbol c = true := by
  simp [inSymbol, Char.isAlphanum, h]

theorem inSymbol_of_plain {cs : List Char} (h : Number.Plain cs) :
    ∀ c ∈ cs, inSymbol c = true := by
  cases h with
  | whole hd => exact fun c hc => inSymbol_of_isDigit (hd.2 c hc)
  | point hd he =>
      intro c hc
      rcases List.mem_append.mp hc with hc | hc
      · exact inSymbol_of_isDigit (hd.2 c hc)
      rcases List.mem_cons.mp hc with rfl | hc
      · decide
      · exact inSymbol_of_isDigit (he.2 c hc)

theorem classify_of_parse? {run : List Char} {n : Number.Numeral}
    (h : Number.Numeral.parse? run = some n) : classify run = .number n.toFloat := by
  have hdot : run ≠ ['.'] := by
    rintro rfl
    cases h
  have htrue : run ≠ ['#', 't'] := by
    rintro rfl
    cases h
  have hfalse : run ≠ ['#', 'f'] := by
    rintro rfl
    cases h
  rw [classify, if_neg hdot, if_neg htrue, if_neg hfalse, h]

theorem spells_number {x : Float} (h : Number.IsFinite x) {rest : List Char}
    (hrest : Delimited rest) (pos : Nat) :
    ∃ n ∈ Number.Numeral.parse? (Number.text x),
      Spells (Number.text x) pos
        [⟨.number n.toFloat, ⟨pos, pos + Text.bytes (Number.text x)⟩⟩] rest := by
  obtain ⟨n, hn⟩ := h.parse?_text
  have hne : Number.text x ≠ [] := by
    intro hnil
    rw [hnil] at hn
    cases hn
  have hrun : ∀ c ∈ Number.text x, inSymbol c = true := by
    obtain ⟨cs, hcs, htext | htext⟩ := h.text_eq <;> rw [htext]
    · exact inSymbol_of_plain hcs
    · exact List.forall_mem_cons.mpr ⟨by decide, inSymbol_of_plain hcs⟩
  refine ⟨n, hn, ?_⟩
  rw [← classify_of_parse? hn]
  exact spells_run hne hrun hrest pos

end DualScope.Lexer
