import DualScope.Proofs.BracketScan

/-!
# What is found in a line

Nothing is missed by the scan: the brackets it finds are all that are neither in a string nor in
a comment, and outside of comments there is no quote that is not part of a string. What a
comment is can be told from the line and its strings alone, without the mode of the scan. So
the invariant is that the findings are complete for the characters up to here, and that the mode
says whether a comment has begun and not ended yet.

One more character changes nothing before it (`inComment_concat`, `Complete.concat`). What it
adds depends on where it stands, and there are two kinds of steps only: those outside of strings
(`Thorough.outside`), and those that make a string longer (`Thorough.inside`).
-/

namespace DualScope.Prompt.Brackets

open Text (At)

/-! ## Strings and comments -/

theorem inString_concat {b : Brackets} {strings : List Span} {last : Span}
    (h : b.strings = strings ++ [last]) {k : Nat} :
    b.InString k ↔
      (∃ t ∈ strings, t.start ≤ k ∧ k < t.stop) ∨ last.start ≤ k ∧ k < last.stop := by
  rw [InString, h]
  simp only [List.mem_append, List.mem_singleton, or_and_right, exists_or, exists_eq_left]

/-- The byte is in a comment: a semicolon is before it, outside of strings, and there is no line
feed between the two. -/
def InComment (b : Brackets) (line : List Char) (k : Nat) : Prop :=
  ∃ j < k, At line j ';' ∧ ¬ b.InString j ∧ ∀ m, j < m → m < k → ¬ At line m '\n'

section

variable {b b' : Brackets} {line : List Char} {c : Char}

theorem bytes_lt_concat (line : List Char) (c : Char) :
    Text.bytes line < Text.bytes (line ++ [c]) :=
  (Text.at_last line c).lt

/-- Whether a byte up to here is in a comment does not depend on what follows. -/
theorem inComment_concat (hstrings : ∀ k < Text.bytes line, b'.InString k ↔ b.InString k)
    {k : Nat} (hk : k ≤ Text.bytes line) :
    b'.InComment (line ++ [c]) k ↔ b.InComment line k := by
  refine exists_congr fun j => and_congr_right fun hjk => ?_
  have hj : j < Text.bytes line := Nat.lt_of_lt_of_le hjk hk
  rw [Text.at_concat_of_lt hj, hstrings j hj]
  refine and_congr_right' (and_congr_right' (forall₃_congr fun m _ hm => ?_))
  rw [Text.at_concat_of_lt (Nat.lt_of_lt_of_le hm hk)]

/-- A comment goes on behind a character that begins it or does not end it. -/
theorem inComment_behind (hstrings : ∀ k < Text.bytes line, b'.InString k ↔ b.InString k) :
    b'.InComment (line ++ [c]) (Text.bytes (line ++ [c])) ↔
      c = ';' ∧ ¬ b'.InString (Text.bytes line) ∨
        c ≠ '\n' ∧ b.InComment line (Text.bytes line) := by
  have hbound := bytes_lt_concat line c
  constructor
  · rintro ⟨j, -, hsemicolon, hout, hline⟩
    rcases Text.at_concat.mp hsemicolon with hsemicolon | ⟨rfl, hc⟩
    · have hj := hsemicolon.lt
      refine .inr ⟨?_, j, hj, hsemicolon, (hstrings j hj).not.mp hout, fun m hjm hm hfeed =>
        hline m hjm (Nat.lt_trans hm hbound) (hfeed.append [c])⟩
      rintro rfl
      exact hline _ hj hbound (Text.at_last line '\n')
    · exact .inl ⟨hc.symm, hout⟩
  · rintro (⟨rfl, hout⟩ | ⟨hc, j, hj, hsemicolon, hout, hline⟩)
    · refine ⟨_, hbound, Text.at_last line ';', hout, fun m hm _ hfeed => ?_⟩
      rcases Text.at_concat.mp hfeed with hfeed | ⟨rfl, -⟩
      · exact Nat.lt_asymm hm hfeed.lt
      · exact Nat.lt_irrefl _ hm
    · refine ⟨j, Nat.lt_trans hj hbound, hsemicolon.append [c], (hstrings j hj).not.mpr hout,
        fun m hjm _ hfeed => ?_⟩
      rcases Text.at_concat.mp hfeed with hfeed | ⟨-, hfeed⟩
      · exact hline m hjm hfeed.lt hfeed
      · exact hc hfeed.symm

/-! ## Nothing is missed -/

/-- All brackets that count are found, and so are all strings that begin outside of comments. -/
structure Complete (b : Brackets) (line : List Char) : Prop where
  brackets : ∀ k, k ∈ places b.pairs b.unmatched b.opened ↔
    (At line k '(' ∨ At line k ')') ∧ ¬ b.InString k ∧ ¬ b.InComment line k
  quotes : ∀ k, At line k '"' → b.InString k ∨ b.InComment line k
  strings : ∀ t ∈ b.strings, ¬ b.InComment line t.start

/-- The findings are complete again behind one more character, when what is new about it is
found. -/
theorem Complete.concat (h : b.Complete line)
    (hstrings : ∀ k < Text.bytes line, b'.InString k ↔ b.InString k)
    (hplaces : ∀ k, k ∈ places b'.pairs b'.unmatched b'.opened ↔
      k ∈ places b.pairs b.unmatched b.opened ∨ k = Text.bytes line ∧ (c = '(' ∨ c = ')') ∧
        ¬ b'.InString (Text.bytes line) ∧ ¬ b.InComment line (Text.bytes line))
    (hquote : c = '"' → b'.InString (Text.bytes line) ∨ b.InComment line (Text.bytes line))
    (hstarts : ∀ t ∈ b'.strings, t.start ≤ Text.bytes line ∧ ¬ b.InComment line t.start) :
    b'.Complete (line ++ [c]) where
  brackets k := by
    rw [hplaces k, h.brackets k]
    rcases Nat.lt_trichotomy k (Text.bytes line) with hk | rfl | hk
    · rw [or_iff_left fun hlast => Nat.ne_of_lt hk hlast.1, Text.at_concat_of_lt hk,
        Text.at_concat_of_lt hk, hstrings k hk, inComment_concat hstrings (Nat.le_of_lt hk)]
    · have hnone : ∀ d, ¬ At line (Text.bytes line) d := fun d hd => Nat.lt_irrefl _ hd.lt
      simp only [Text.at_concat, hnone, false_or, false_and, true_and,
        inComment_concat hstrings (Nat.le_refl _), eq_comm]
    · have hnone : ∀ d, ¬ At line k d := fun d hd => Nat.lt_asymm hk hd.lt
      simp only [Text.at_concat, hnone, Nat.ne_of_gt hk, false_or, false_and]
  quotes k hk := by
    rcases Text.at_concat.mp hk with hk | ⟨rfl, hc⟩
    · rw [hstrings k hk.lt, inComment_concat hstrings (Nat.le_of_lt hk.lt)]
      exact h.quotes k hk
    · rw [inComment_concat hstrings (Nat.le_refl _)]
      exact hquote hc.symm
  strings t ht := by
    obtain ⟨hstart, hout⟩ := hstarts t ht
    rwa [inComment_concat hstrings hstart]

end

namespace Scan

/-- Up to here nothing is missed, and the scan knows whether it is in a comment. -/
structure Thorough (s : Scan) (seen : List Char) : Prop where
  complete : (s.finish (Text.bytes seen)).Complete seen
  comment : (s.finish (Text.bytes seen)).InComment seen (Text.bytes seen) ↔ s.mode = .comment

theorem mem_finish_places {s : Scan} {size k : Nat} :
    k ∈ Brackets.places (s.finish size).pairs (s.finish size).unmatched (s.finish size).opened ↔
      k ∈ s.places :=
  (s.finish_places size).mem_iff

section

variable {s : Scan} {size : Nat}

theorem finish_unclosed {first : Nat} (h : s.mode.unclosed? = some first) :
    (s.finish size).strings = s.strings.reverse ++ [⟨first, size⟩] := by
  rw [finish, h]
  rfl

theorem finish_of_unclosed (h : s.mode.unclosed? = none) :
    (s.finish size).strings = s.strings.reverse := by
  rw [finish, h]
  exact List.append_nil _

end

theorem thorough_start : start.Thorough [] where
  complete :=
    { brackets k := by
        refine iff_of_false (by simp [start, finish, Brackets.places]) ?_
        rintro ⟨h | h, -⟩ <;> exact Nat.not_lt_zero _ h.lt
      quotes k h := absurd h.lt (Nat.not_lt_zero _)
      strings := by simp [start, finish, Mode.unclosed?] }
  comment := by
    refine iff_of_false ?_ (by decide)
    rintro ⟨j, hj, -⟩
    exact Nat.not_lt_zero j hj

variable {s s' : Scan} {seen : List Char} {c : Char}

/-- A string that gets longer has no other bytes before its new end. -/
theorem inString_of_grows {start : Nat}
    (hmode : s.mode.unclosed? = some start ∨ s.mode = .code ∧ start = Text.bytes seen)
    (hstrings : (s'.finish (Text.bytes (seen ++ [c]))).strings =
      s.strings.reverse ++ [⟨start, Text.bytes (seen ++ [c])⟩])
    {k : Nat} (hk : k < Text.bytes seen) :
    (s'.finish (Text.bytes (seen ++ [c]))).InString k ↔
      (s.finish (Text.bytes seen)).InString k := by
  rw [inString_concat hstrings, and_iff_left (Nat.lt_trans hk (bytes_lt_concat seen c))]
  rcases hmode with hmode | ⟨hmode, rfl⟩
  · rw [inString_concat (finish_unclosed hmode), and_iff_left hk]
  · rw [or_iff_left (Nat.not_le_of_lt hk), InString,
      finish_of_unclosed (congrArg Mode.unclosed? hmode)]

namespace Thorough

/-- Outside of strings, a step keeps the strings, and it finds the character if it counts. -/
theorem outside (h : s.Thorough seen) (hs : s.Sound seen) (hmode : s.mode.unclosed? = none)
    (hmode' : s'.mode.unclosed? = none) (hstrings : s'.strings = s.strings)
    (hplaces : ∀ k, k ∈ s'.places ↔
      k ∈ s.places ∨ k = Text.bytes seen ∧ (c = '(' ∨ c = ')') ∧ s.mode ≠ .comment)
    (hquote : c ≠ '"' ∨ s.mode = .comment)
    (hcomment : s'.mode = .comment ↔ c = ';' ∨ c ≠ '\n' ∧ s.mode = .comment) :
    s'.Thorough (seen ++ [c]) := by
  have hfinish : (s.finish (Text.bytes seen)).strings = s.strings.reverse :=
    finish_of_unclosed hmode
  have hsame : (s'.finish (Text.bytes (seen ++ [c]))).strings =
      (s.finish (Text.bytes seen)).strings := by
    rw [finish_of_unclosed hmode', hstrings, finish_of_unclosed hmode]
  have hin : ∀ k, (s'.finish (Text.bytes (seen ++ [c]))).InString k ↔
      (s.finish (Text.bytes seen)).InString k := by
    intro k
    rw [InString, hsame, InString]
  have hout : ¬ (s'.finish (Text.bytes (seen ++ [c]))).InString (Text.bytes seen) := by
    rw [hin]
    rintro ⟨t, ht, -, hstop⟩
    rw [hfinish, List.mem_reverse] at ht
    exact Nat.not_lt_of_le (hs.closed t ht).stop_le hstop
  refine ⟨h.complete.concat (fun k _ => hin k) (fun k => ?_) (fun hc => ?_) fun t ht => ?_, ?_⟩
  · rw [mem_finish_places, mem_finish_places, hplaces k, h.comment, and_iff_right hout]
  · exact .inr (h.comment.mpr (hquote.resolve_left (absurd hc)))
  · rw [hsame] at ht
    refine ⟨?_, h.complete.strings t ht⟩
    rw [hfinish, List.mem_reverse] at ht
    exact Nat.le_of_lt (hs.closed t ht).opens.lt
  · rw [inComment_behind fun k _ => hin k, h.comment, and_iff_left hout, hcomment]

/-- A bracket in the code is found. -/
theorem bracket (h : s.Thorough seen) (hs : s.Sound seen) (hmode : s.mode = .code)
    (hmode' : s'.mode = .code) (hstrings : s'.strings = s.strings)
    (hplaces : s'.places.Perm (Text.bytes seen :: s.places)) (hc : c = '(' ∨ c = ')') :
    s'.Thorough (seen ++ [c]) := by
  refine h.outside hs (congrArg Mode.unclosed? hmode) (congrArg Mode.unclosed? hmode') hstrings
    (fun k => ?_) ?_ ?_
  · rw [hplaces.mem_iff, List.mem_cons, or_comm, and_iff_left ⟨hc, by rw [hmode]; decide⟩]
  · rcases hc with rfl | rfl <;> exact .inl (by decide)
  · rw [hmode, hmode']
    rcases hc with rfl | rfl <;> decide

/-- A step in a string, or into it, makes the string one character longer. -/
theorem inside (h : s.Thorough seen) (hs : s.Sound seen) {start : Nat}
    (hmode : s.mode.unclosed? = some start ∨ s.mode = .code ∧ start = Text.bytes seen)
    (hstrings : (s'.finish (Text.bytes (seen ++ [c]))).strings =
      s.strings.reverse ++ [⟨start, Text.bytes (seen ++ [c])⟩])
    (hplaces : s'.places = s.places) (hmode' : s'.mode ≠ .comment) :
    s'.Thorough (seen ++ [c]) := by
  have hcode : ¬ (s.finish (Text.bytes seen)).InComment seen (Text.bytes seen) := by
    rw [h.comment]
    intro hcomment
    rcases hmode with hmode | ⟨hmode, -⟩ <;> rw [hcomment] at hmode <;> cases hmode
  have hstart : start ≤ Text.bytes seen ∧
      ¬ (s.finish (Text.bytes seen)).InComment seen start := by
    rcases hmode with hmode | ⟨-, rfl⟩
    · have hmem : ⟨start, Text.bytes seen⟩ ∈ (s.finish (Text.bytes seen)).strings := by
        rw [finish_unclosed hmode]
        exact List.mem_append_right _ List.mem_cons_self
      exact ⟨Nat.le_of_lt (hs.unclosed_lt hmode), h.complete.strings _ hmem⟩
    · exact ⟨Nat.le_refl _, hcode⟩
  have hin : (s'.finish (Text.bytes (seen ++ [c]))).InString (Text.bytes seen) :=
    (inString_concat hstrings).mpr (.inr ⟨hstart.1, bytes_lt_concat seen c⟩)
  have hsame : ∀ k < Text.bytes seen, (s'.finish (Text.bytes (seen ++ [c]))).InString k ↔
      (s.finish (Text.bytes seen)).InString k :=
    fun _ hk => inString_of_grows hmode hstrings hk
  refine ⟨h.complete.concat hsame (fun k => ?_) (fun _ => .inl hin) fun t ht => ?_, ?_⟩
  · rw [mem_finish_places, mem_finish_places, hplaces, or_iff_left fun hlast => hlast.2.2.1 hin]
  · rw [hstrings] at ht
    rcases List.mem_append.mp ht with ht | ht
    · exact ⟨Nat.le_of_lt (hs.closed t (List.mem_reverse.mp ht)).opens.lt,
        h.complete.strings t (List.mem_append_left _ ht)⟩
    · cases List.mem_singleton.mp ht
      exact hstart
  · rw [inComment_behind hsame]
    refine iff_of_false ?_ hmode'
    rintro (⟨-, hout⟩ | ⟨-, hcomment⟩)
    · exact hout hin
    · exact hcode hcomment

theorem advances (h : s.Thorough seen) (hs : s.Sound seen)
    (hstep : s.Advances (Text.bytes seen) c s') : s'.Thorough (seen ++ [c]) := by
  cases hstep with
  | plain hmode hmarks hsemicolon =>
      simp only [Lexer.marks, List.mem_cons, List.not_mem_nil, or_false, not_or] at hmarks
      have hunclosed : s.mode.unclosed? = none := congrArg Mode.unclosed? hmode
      refine h.outside hs hunclosed hunclosed rfl (fun k => ?_) (.inl hmarks.2.2) ?_
      · simp [hmarks]
      · simp [hmode, hsemicolon]
  | comments hmode =>
      refine h.outside hs (congrArg Mode.unclosed? hmode) rfl rfl (fun k => ?_) (.inl (by decide)) ?_
      · exact (or_iff_left fun hlast => by simp at hlast).symm
      · simp [inMode]
  | skips hmode hline =>
      have hunclosed : s.mode.unclosed? = none := congrArg Mode.unclosed? hmode
      refine h.outside hs hunclosed hunclosed rfl (fun k => ?_) (.inr hmode) ?_
      · simp [hmode]
      · simp [hmode, hline]
  | returns hmode =>
      refine h.outside hs (congrArg Mode.unclosed? hmode) rfl rfl (fun k => ?_) (.inl (by decide)) ?_
      · exact (or_iff_left fun hlast => by simp at hlast).symm
      · simp [inMode]
  | begins hmode => exact h.inside hs (.inr ⟨hmode, rfl⟩) (finish_unclosed rfl) rfl (by rintro ⟨⟩)
  | inside hmode =>
      have hunclosed := congrArg Mode.unclosed? hmode
      exact h.inside hs (.inl hunclosed) (finish_unclosed hunclosed) rfl (by rw [hmode]; rintro ⟨⟩)
  | escapes hmode =>
      exact h.inside hs (.inl (congrArg Mode.unclosed? hmode)) (finish_unclosed rfl) rfl (by rintro ⟨⟩)
  | escaped hmode =>
      exact h.inside hs (.inl (congrArg Mode.unclosed? hmode)) (finish_unclosed rfl) rfl (by rintro ⟨⟩)
  | ends hmode =>
      refine h.inside hs (.inl (congrArg Mode.unclosed? hmode)) ?_ rfl (by rintro ⟨⟩)
      rw [finish_of_unclosed rfl, List.reverse_cons, Text.bytes_append]
      rfl
  | opens hmode => exact h.bracket hs hmode hmode rfl places_opens (.inl rfl)
  | closes hmode hopened => exact h.bracket hs hmode hmode rfl (places_closes hopened) (.inr rfl)
  | misses hmode hopened => exact h.bracket hs hmode hmode rfl (places_misses hopened) (.inr rfl)

end Thorough

/-- No scan of a line misses anything. -/
theorem Sound.thorough_run (hs : s.Sound seen) (h : s.Thorough seen) (cs : List Char) :
    (s.run (Text.bytes seen) cs).Thorough (seen ++ cs) := by
  induction cs generalizing s seen with
  | nil =>
      rw [List.append_nil]
      exact h
  | cons c cs ih =>
      have hstep := s.advances (Text.bytes seen) c
      have hnext := ih (hs.advances hstep) (h.advances hs hstep)
      rw [List.append_assoc, Text.bytes_append] at hnext
      exact hnext

end Scan

/-- Nothing in a line is missed. -/
theorem complete_of (line : List Char) : (of line).Complete line :=
  (Scan.sound_start.thorough_run Scan.thorough_start line).complete

/-! ## The order of what is found -/

/-- The pairs lie beside each other, or one of them encloses the other. -/
def NestedOrDisjoint (p q : Nat × Nat) : Prop :=
  p.2 < q.1 ∨ q.2 < p.1 ∨ (p.1 < q.1 ∧ q.2 < p.2) ∨ (q.1 < p.1 ∧ p.2 < q.2)

/-- The strings follow each other, each from one double quote to the next that is not escaped, but
for the last one, which may have no end. -/
structure StringsInOrder (line : List Char) (strings : List Span) (inString : Bool) : Prop where
  nonempty : ∀ t ∈ strings, t.start < t.stop
  sorted : strings.Pairwise fun t r => t.stop ≤ r.start
  start : ∀ t ∈ strings, At line t.start '"'
  stop : ∀ t ∈ strings.dropLast, ∃ last, t.stop = last + 1 ∧ At line last '"'
  closed : ∀ t ∈ strings.dropLast, Closed line t
  unclosed : inString = true ↔
    ∃ t, strings.getLast? = some t ∧ ∀ stop, ¬ Closed line ⟨t.start, stop⟩
  reaches : inString = true → ∀ t ∈ strings.getLast?, t.stop = Text.bytes line

section

variable {line : List Char} {strings : List Span}

theorem stringsInOrder_closed (hclosed : ∀ t ∈ strings, Closed line t)
    (hsorted : strings.Pairwise fun t r => t.stop ≤ r.start) :
    StringsInOrder line strings false where
  nonempty t ht := (hclosed t ht).start_lt_stop
  sorted := hsorted
  start t ht := (hclosed t ht).opens
  stop t ht := (hclosed t (List.mem_of_mem_dropLast ht)).closes
  closed t ht := hclosed t (List.mem_of_mem_dropLast ht)
  unclosed := by
    refine iff_of_false Bool.false_ne_true ?_
    rintro ⟨t, ht, hopen⟩
    exact hopen t.stop (hclosed t (List.mem_of_getLast? ht))
  reaches h := absurd h Bool.false_ne_true

theorem stringsInOrder_pending {start : Nat} {escaped : Bool}
    (hclosed : ∀ t ∈ strings, Closed line t)
    (hsorted : strings.Pairwise fun t r => t.stop ≤ r.start) (hpending : Pending line start escaped)
    (hbefore : ∀ t ∈ strings, t.stop ≤ start) :
    StringsInOrder line (strings ++ [⟨start, Text.bytes line⟩]) true where
  nonempty := List.forall_mem_append.mpr
    ⟨fun t ht => (hclosed t ht).start_lt_stop, List.forall_mem_singleton.mpr hpending.start_lt⟩
  sorted := List.pairwise_append.mpr
    ⟨hsorted, List.pairwise_singleton _ _, fun t ht => List.forall_mem_singleton.mpr (hbefore t ht)⟩
  start := List.forall_mem_append.mpr
    ⟨fun t ht => (hclosed t ht).opens, List.forall_mem_singleton.mpr hpending.opens⟩
  stop t ht := by
    rw [List.dropLast_concat] at ht
    exact (hclosed t ht).closes
  closed t ht := by
    rw [List.dropLast_concat] at ht
    exact hclosed t ht
  unclosed := iff_of_true rfl ⟨_, List.getLast?_concat, hpending.not_closed⟩
  reaches _ t ht := by
    rw [List.getLast?_concat] at ht
    cases ht
    rfl

end

/-- What is known about the line is in order, and nothing is missing. -/
structure WellFormed (b : Brackets) (line : List Char) : Prop where
  /-- Pairs are listed as they are closed. -/
  pairs_sorted : b.pairs.Pairwise fun p q => p.2 < q.2
  pairs_ascending : ∀ p ∈ b.pairs, p.1 < p.2
  pairs_marked : ∀ p ∈ b.pairs, At line p.1 '(' ∧ At line p.2 ')'
  pairs_nested : b.pairs.Pairwise NestedOrDisjoint
  distinct : (places b.pairs b.unmatched b.opened).Nodup
  outside : ∀ k ∈ places b.pairs b.unmatched b.opened, ∀ t ∈ b.strings,
    ¬ (t.start ≤ k ∧ k < t.stop)
  opened_sorted : b.opened.Pairwise (· < ·)
  unmatched_sorted : b.unmatched.Pairwise (· < ·)
  unmatched_lt_opened : ∀ k ∈ b.unmatched, ∀ j ∈ b.opened, k < j
  unenclosed : ∀ p ∈ b.pairs, ∀ k ∈ b.unmatched ++ b.opened, ¬ (p.1 < k ∧ k < p.2)
  strings : StringsInOrder line b.strings b.inString
  complete : b.Complete line

/-- What the prompt finds in a line is in order and complete, whatever the line is. -/
theorem wellFormed_of (line : List Char) : (of line).WellFormed line := by
  have hnested := nested_of line
  have hapart := List.pairwise_reverse.mp hnested.apart
  refine
    { pairs_sorted := hapart.imp And.left
      pairs_ascending := fun p hp => hnested.ascending p (List.mem_reverse.mpr hp)
      pairs_marked := (marked_of line).pairs
      pairs_nested := hapart.imp fun {p q} h => ?_
      distinct := nodup_places line
      outside := fun k hk t ht => ?_
      opened_sorted := List.pairwise_reverse.mp hnested.opened_sorted
      unmatched_sorted := List.pairwise_reverse.mp hnested.unmatched_sorted
      unmatched_lt_opened := fun k hk j hj =>
        hnested.unmatched_lt k (List.mem_reverse.mpr hk) j (List.mem_reverse.mpr hj)
      unenclosed := fun p hp k hk => ?_
      strings := ?_
      complete := complete_of line }
  · -- The pair that is closed later begins behind the other one, or it encloses it.
    rcases h with ⟨hlt, hbehind | hencloses⟩
    · exact .inl hbehind
    · exact .inr (.inr (.inr ⟨hencloses, hlt⟩))
  · have hout := outside_of line hk ht
    omega
  · have hk' : k ∈ (of line).unmatched.reverse ++ (of line).opened.reverse :=
      List.mem_append.mpr ((List.mem_append.mp hk).imp List.mem_reverse.mpr List.mem_reverse.mpr)
    have hout := hnested.unenclosed p (List.mem_reverse.mpr hp) k hk'
    omega
  · obtain ⟨strings, hclosed, hsorted, ⟨hstrings, hend⟩ | hstring⟩ := strings_of line
    · rw [hstrings, hend]
      exact stringsInOrder_closed hclosed hsorted
    · obtain ⟨start, escaped, hpending, hbefore, hstrings, hend⟩ := hstring
      rw [hstrings, hend]
      exact stringsInOrder_pending hclosed hsorted hpending hbefore

end DualScope.Prompt.Brackets
