import DualScope.Proofs.LineStrings

/-!
# What a scan for brackets keeps

The scan of a line goes from character to character, and what it has found so far is in order
all the time. The brackets that wait for their partner are a stack: the next one to be closed
is behind all others, and every pair that was closed before lies wholly in front of it or
wholly behind it. So a new pair encloses an old one or leaves it behind, and no pair ever
encloses a bracket that is without a partner. Strings follow each other, and no bracket is
found inside of one.

All this is kept by every single step, and there are twelve kinds of steps (`Scan.Advances`).
The findings of a whole line are those of the last step, in the order of the line, together
with the string that the line leaves open.
-/

namespace DualScope.Prompt.Brackets

open Text (At)

/-! ## One step of the scan -/

/-- What a scan can do with the character at byte `i`. -/
inductive Scan.Advances (s : Scan) (i : Nat) : Char → Scan → Prop
  | plain {c : Char} : s.mode = .code → c ∉ Lexer.marks → c ≠ ';' → Advances s i c s
  | comments : s.mode = .code → Advances s i ';' (s.inMode .comment)
  | skips {c : Char} : s.mode = .comment → c ≠ '\n' → Advances s i c s
  | returns : s.mode = .comment → Advances s i '\n' (s.inMode .code)
  | begins : s.mode = .code → Advances s i '"' (s.inMode (.string i false))
  | inside {c : Char} {start : Nat} : s.mode = .string start false → c ≠ '"' → c ≠ '\\' →
    Advances s i c s
  | escapes {start : Nat} : s.mode = .string start false →
    Advances s i '\\' (s.inMode (.string start true))
  | escaped {c : Char} {start : Nat} : s.mode = .string start true →
    Advances s i c (s.inMode (.string start false))
  | ends {start : Nat} : s.mode = .string start false →
    Advances s i '"' { s with mode := .code, strings := ⟨start, i + 1⟩ :: s.strings }
  | opens : s.mode = .code → Advances s i '(' { s with opened := i :: s.opened }
  | closes {partner : Nat} {rest : List Nat} : s.mode = .code → s.opened = partner :: rest →
    Advances s i ')' { s with opened := rest, pairs := (partner, i) :: s.pairs }
  | misses : s.mode = .code → s.opened = [] →
    Advances s i ')' { s with unmatched := i :: s.unmatched }

theorem Scan.advances (s : Scan) (i : Nat) (c : Char) : s.Advances i c (s.step i c) := by
  fun_cases Scan.step s i c with
  | case1 start hmode => exact .escaped hmode
  | case2 start hmode hc => exact hc ▸ .escapes hmode
  | case3 start hmode _ hc => exact hc ▸ .ends hmode
  | case4 start hmode hbackslash hquote => exact .inside hmode hquote hbackslash
  | case5 hmode hc => exact hc ▸ .returns hmode
  | case6 hmode hc => exact .skips hmode hc
  | case7 hmode hc => exact hc ▸ .begins hmode
  | case8 hmode _ hc => exact hc ▸ .comments hmode
  | case9 hmode _ _ hc => exact hc ▸ .opens hmode
  | case10 hmode _ _ _ hc partner rest hopened => exact hc ▸ .closes hmode hopened
  | case11 hmode _ _ _ hc hopened => exact hc ▸ .misses hmode hopened
  | case12 hmode hquote hsemicolon hopen hclose =>
      exact .plain hmode (by simp [Lexer.marks, hopen, hclose, hquote]) hsemicolon

/-! ## Brackets -/

section

variable {s : Scan} {i : Nat}

theorem Scan.places_opens :
    (Scan.places { s with opened := i :: s.opened }).Perm (i :: s.places) :=
  s.token_places ⟨.openParen, ⟨i, i + 1⟩⟩

theorem Scan.places_closes {partner : Nat} {rest : List Nat} (h : s.opened = partner :: rest) :
    (Scan.places { s with opened := rest, pairs := (partner, i) :: s.pairs }).Perm
      (i :: s.places) := by
  have hperm : (s.token ⟨.closeParen, ⟨i, i + 1⟩⟩).places.Perm (i :: s.places) := s.token_places _
  simpa only [Scan.token, h] using hperm

theorem Scan.places_misses (h : s.opened = []) :
    (Scan.places { s with unmatched := i :: s.unmatched }).Perm (i :: s.places) := by
  have hperm : (s.token ⟨.closeParen, ⟨i, i + 1⟩⟩).places.Perm (i :: s.places) := s.token_places _
  simpa only [Scan.token, h] using hperm

end

theorem mem_places {pairs : List (Nat × Nat)} {unmatched opened : List Nat} {k : Nat} :
    k ∈ places pairs unmatched opened ↔
      (∃ p ∈ pairs, k = p.1 ∨ k = p.2) ∨ k ∈ unmatched ∨ k ∈ opened := by
  simp [places]

/-- The findings, newest first, are those of brackets before the bound that match each other
where they can. -/
structure Nested (bound : Nat) (pairs : List (Nat × Nat)) (unmatched opened : List Nat) :
    Prop where
  within : ∀ k ∈ places pairs unmatched opened, k < bound
  ascending : ∀ p ∈ pairs, p.1 < p.2
  apart : pairs.Pairwise fun q p => p.2 < q.2 ∧ (p.2 < q.1 ∨ q.1 < p.1)
  unmatched_sorted : unmatched.Pairwise fun k j => j < k
  opened_sorted : opened.Pairwise fun k j => j < k
  unmatched_lt : ∀ k ∈ unmatched, ∀ j ∈ opened, k < j
  unenclosed : ∀ p ∈ pairs, ∀ k ∈ unmatched ++ opened, k < p.1 ∨ p.2 < k

namespace Nested

variable {bound i : Nat} {pairs : List (Nat × Nat)} {unmatched opened : List Nat}

theorem mono (h : Nested bound pairs unmatched opened) (hi : bound ≤ i) :
    Nested i pairs unmatched opened :=
  { h with within := fun k hk => Nat.lt_of_lt_of_le (h.within k hk) hi }

theorem pair_lt (h : Nested bound pairs unmatched opened) {p : Nat × Nat} (hp : p ∈ pairs) :
    p.2 < bound :=
  h.within p.2 (mem_places.mpr (.inl ⟨p, hp, .inr rfl⟩))

theorem unmatched_bound (h : Nested bound pairs unmatched opened) {k : Nat} (hk : k ∈ unmatched) :
    k < bound :=
  h.within k (mem_places.mpr (.inr (.inl hk)))

theorem opened_bound (h : Nested bound pairs unmatched opened) {k : Nat} (hk : k ∈ opened) :
    k < bound :=
  h.within k (mem_places.mpr (.inr (.inr hk)))

theorem opens (h : Nested bound pairs unmatched opened) (hi : bound < i) :
    Nested i pairs unmatched (bound :: opened) where
  within k hk := by
    rcases mem_places.mp hk with hpair | hk | hk
    · exact Nat.lt_trans (h.within k (mem_places.mpr (.inl hpair))) hi
    · exact Nat.lt_trans (h.unmatched_bound hk) hi
    · rcases List.mem_cons.mp hk with rfl | hk
      · exact hi
      · exact Nat.lt_trans (h.opened_bound hk) hi
  ascending := h.ascending
  apart := h.apart
  unmatched_sorted := h.unmatched_sorted
  opened_sorted := List.pairwise_cons.mpr ⟨fun k hk => h.opened_bound hk, h.opened_sorted⟩
  unmatched_lt k hk := List.forall_mem_cons.mpr ⟨h.unmatched_bound hk, h.unmatched_lt k hk⟩
  unenclosed p hp k hk := by
    rcases List.mem_append.mp hk with hk | hk
    · exact h.unenclosed p hp k (List.mem_append_left opened hk)
    · rcases List.mem_cons.mp hk with rfl | hk
      · exact .inr (h.pair_lt hp)
      · exact h.unenclosed p hp k (List.mem_append_right unmatched hk)

/-- Of the brackets that are open the last one is closed, and it encloses no other. -/
theorem closes {partner : Nat} {rest : List Nat}
    (h : Nested bound pairs unmatched (partner :: rest)) (hi : bound < i) :
    Nested i ((partner, bound) :: pairs) unmatched rest := by
  have hpartner : partner < bound := h.opened_bound List.mem_cons_self
  obtain ⟨hbelow, hrest⟩ := List.pairwise_cons.mp h.opened_sorted
  have hleft : ∀ k ∈ unmatched ++ rest, k < partner := by
    intro k hk
    rcases List.mem_append.mp hk with hk | hk
    · exact h.unmatched_lt k hk partner List.mem_cons_self
    · exact hbelow k hk
  refine ⟨?_, ?_, ?_, h.unmatched_sorted, hrest, ?_, ?_⟩
  · intro k hk
    rcases mem_places.mp hk with ⟨p, hp, hkp⟩ | hk | hk
    · rcases List.mem_cons.mp hp with rfl | hp
      · rcases hkp with rfl | rfl
        · exact Nat.lt_trans hpartner hi
        · exact hi
      · exact Nat.lt_trans (h.within k (mem_places.mpr (.inl ⟨p, hp, hkp⟩))) hi
    · exact Nat.lt_trans (h.unmatched_bound hk) hi
    · exact Nat.lt_trans (h.opened_bound (List.mem_cons_of_mem partner hk)) hi
  · exact List.forall_mem_cons.mpr ⟨hpartner, h.ascending⟩
  · refine List.pairwise_cons.mpr ⟨fun p hp => ⟨h.pair_lt hp, ?_⟩, h.apart⟩
    -- The partner was open until now, so that no older pair encloses it.
    exact (h.unenclosed p hp partner (List.mem_append_right _ List.mem_cons_self)).symm
  · exact fun k hk j hj => h.unmatched_lt k hk j (List.mem_cons_of_mem partner hj)
  · intro p hp k hk
    rcases List.mem_cons.mp hp with rfl | hp
    · exact .inl (hleft k hk)
    · refine h.unenclosed p hp k (List.mem_append.mpr ?_)
      exact (List.mem_append.mp hk).imp_right (List.mem_cons_of_mem partner)

theorem misses (h : Nested bound pairs unmatched []) (hi : bound < i) :
    Nested i pairs (bound :: unmatched) [] where
  within k hk := by
    rcases mem_places.mp hk with hpair | hk | hk
    · exact Nat.lt_trans (h.within k (mem_places.mpr (.inl hpair))) hi
    · rcases List.mem_cons.mp hk with rfl | hk
      · exact hi
      · exact Nat.lt_trans (h.unmatched_bound hk) hi
    · cases hk
  ascending := h.ascending
  apart := h.apart
  unmatched_sorted := List.pairwise_cons.mpr ⟨fun k hk => h.unmatched_bound hk, h.unmatched_sorted⟩
  opened_sorted := .nil
  unmatched_lt _ _ _ hj := by cases hj
  unenclosed p hp k hk := by
    rw [List.append_nil] at hk
    rcases List.mem_cons.mp hk with rfl | hk
    · exact .inr (h.pair_lt hp)
    · exact h.unenclosed p hp k (List.mem_append_left [] hk)

/-- No bracket is found twice. -/
theorem nodup (h : Nested bound pairs unmatched opened) :
    (places pairs unmatched opened).Nodup := by
  have hpairs : (pairs.flatMap fun p => [p.1, p.2]).Nodup := by
    refine List.nodup_flatMap.mpr ⟨fun p hp => ?_, h.apart.imp_of_mem fun {q p} hq hp hapart => ?_⟩
    · simpa using Nat.ne_of_lt (h.ascending p hp)
    · have hq := h.ascending q hq
      have hp := h.ascending p hp
      simp only [Function.onFun, List.disjoint_left, List.mem_cons, List.not_mem_nil, or_false]
      omega
  have hsingle : (unmatched ++ opened).Nodup := by
    refine List.nodup_append'.mpr
      ⟨h.unmatched_sorted.imp Nat.ne_of_gt, h.opened_sorted.imp Nat.ne_of_gt, ?_⟩
    exact fun k hk hk' => Nat.lt_irrefl k (h.unmatched_lt k hk k hk')
  rw [places, List.append_assoc]
  refine List.nodup_append'.mpr ⟨hpairs, hsingle, fun k hk hk' => ?_⟩
  obtain ⟨p, hp, hkp⟩ := List.mem_flatMap.mp hk
  have hout := h.unenclosed p hp k hk'
  have hlt := h.ascending p hp
  simp only [List.mem_cons, List.not_mem_nil, or_false] at hkp
  omega

end Nested

/-- The places are those of the characters that they ought to be. -/
structure Marked (line : List Char) (pairs : List (Nat × Nat)) (unmatched opened : List Nat) :
    Prop where
  pairs : ∀ p ∈ pairs, At line p.1 '(' ∧ At line p.2 ')'
  unmatched : ∀ k ∈ unmatched, At line k ')'
  opened : ∀ k ∈ opened, At line k '('

theorem Marked.append {line : List Char} {ps : List (Nat × Nat)} {us os : List Nat}
    (h : Marked line ps us os) (more : List Char) : Marked (line ++ more) ps us os where
  pairs p hp := ⟨(h.pairs p hp).1.append more, (h.pairs p hp).2.append more⟩
  unmatched k hk := (h.unmatched k hk).append more
  opened k hk := (h.opened k hk).append more

/-! ## The scan of a whole line -/

/-- What is in order behind the characters `seen`. -/
structure Scan.Sound (s : Scan) (seen : List Char) : Prop where
  nested : Nested (Text.bytes seen) s.pairs s.unmatched s.opened
  marked : Marked seen s.pairs s.unmatched s.opened
  closed : ∀ t ∈ s.strings, Closed seen t
  apart : s.strings.Pairwise fun t r => r.stop ≤ t.start
  outside : ∀ k ∈ s.places, ∀ t ∈ s.strings, k < t.start ∨ t.stop ≤ k
  pending : ∀ start escaped, s.mode = .string start escaped → Pending seen start escaped ∧
    (∀ k ∈ s.places, k < start) ∧ ∀ t ∈ s.strings, t.stop ≤ start

namespace Scan

variable {s : Scan} {seen : List Char}

theorem sound_start : start.Sound [] where
  nested := ⟨by simp [start, Brackets.places], by simp [start], .nil, .nil, .nil, by simp [start],
    by simp [start]⟩
  marked := ⟨by simp [start], by simp [start], by simp [start]⟩
  closed := by simp [start]
  apart := .nil
  outside := by simp [start]
  pending _ _ h := by cases h

namespace Sound

theorem mode_code (h : s.mode = .code) (start : Nat) (escaped : Bool) :
    s.mode ≠ .string start escaped := by
  rw [h]
  rintro ⟨⟩

theorem unclosed_lt (h : s.Sound seen) {start : Nat} (hmode : s.mode.unclosed? = some start) :
    start < Text.bytes seen := by
  cases hstring : s.mode with
  | string start' escaped =>
      rw [hstring] at hmode
      cases hmode
      exact (h.pending _ _ hstring).1.start_lt
  | code => rw [hstring] at hmode; cases hmode
  | comment => rw [hstring] at hmode; cases hmode

/-- A step to another mode finds nothing, and what was found stays in order. -/
theorem inMode (h : s.Sound seen) (c : Char) {m : Mode}
    (hm : ∀ start escaped, m = .string start escaped → Pending (seen ++ [c]) start escaped ∧
      (∀ k ∈ s.places, k < start) ∧ ∀ t ∈ s.strings, t.stop ≤ start) :
    (s.inMode m).Sound (seen ++ [c]) where
  nested := h.nested.mono (by simp [Text.bytes_append])
  marked := h.marked.append [c]
  closed t ht := (h.closed t ht).append [c]
  apart := h.apart
  outside := h.outside
  pending := hm

/-- A bracket that is found in the code is behind all strings. -/
theorem bracket (h : s.Sound seen) {c : Char} {s' : Scan}
    (hnested : Nested (Text.bytes (seen ++ [c])) s'.pairs s'.unmatched s'.opened)
    (hmarked : Marked (seen ++ [c]) s'.pairs s'.unmatched s'.opened)
    (hplaces : s'.places.Perm (Text.bytes seen :: s.places))
    (hstrings : s'.strings = s.strings) (hmode' : s'.mode = .code) :
    s'.Sound (seen ++ [c]) where
  nested := hnested
  marked := hmarked
  closed t ht := (h.closed t (hstrings ▸ ht)).append [c]
  apart := hstrings ▸ h.apart
  outside k hk t ht := by
    rw [hstrings] at ht
    rcases List.mem_cons.mp (hplaces.subset hk) with rfl | hk
    · exact .inr (h.closed t ht).stop_le
    · exact h.outside k hk t ht
  pending start escaped hstring := absurd hstring (mode_code hmode' start escaped)

theorem advances {s' : Scan} {c : Char} (h : s.Sound seen)
    (hstep : s.Advances (Text.bytes seen) c s') : s'.Sound (seen ++ [c]) := by
  have hbound : Text.bytes seen < Text.bytes (seen ++ [c]) := by
    have hc := c.utf8Size_pos
    rw [Text.bytes_append, Text.bytes_cons]
    omega
  cases hstep with
  | plain hmode => exact h.inMode c fun _ _ hstring => absurd hstring (mode_code hmode _ _)
  | comments => exact h.inMode _ (by rintro _ _ ⟨⟩)
  | skips hmode =>
      refine h.inMode c fun _ _ hstring => ?_
      rw [hmode] at hstring
      cases hstring
  | returns => exact h.inMode _ (by rintro _ _ ⟨⟩)
  | begins hmode =>
      refine h.inMode _ fun start escaped hstring => ?_
      cases hstring
      exact ⟨.begins seen, h.nested.within, fun t ht => (h.closed t ht).stop_le⟩
  | inside hmode hquote hbackslash =>
      refine h.inMode c fun start escaped hstring => ?_
      rw [hmode] at hstring
      cases hstring
      obtain ⟨hpending, hbefore⟩ := h.pending _ _ hmode
      exact ⟨hpending.plain hquote hbackslash, hbefore⟩
  | escapes hmode =>
      refine h.inMode _ fun start escaped hstring => ?_
      cases hstring
      obtain ⟨hpending, hbefore⟩ := h.pending _ _ hmode
      exact ⟨hpending.escapes, hbefore⟩
  | escaped hmode =>
      refine h.inMode c fun start escaped hstring => ?_
      cases hstring
      obtain ⟨hpending, hbefore⟩ := h.pending _ _ hmode
      exact ⟨hpending.escaped c, hbefore⟩
  | @ends start hmode =>
      obtain ⟨hpending, hplaces, hstrings⟩ := h.pending _ _ hmode
      refine ⟨h.nested.mono (Nat.le_of_lt hbound), h.marked.append _, ?_, ?_, ?_, ?_⟩
      · exact List.forall_mem_cons.mpr
          ⟨hpending.close, fun t ht => (h.closed t ht).append _⟩
      · exact List.pairwise_cons.mpr ⟨hstrings, h.apart⟩
      · exact fun k hk => List.forall_mem_cons.mpr ⟨.inl (hplaces k hk), h.outside k hk⟩
      · intro _ _ hstring
        cases hstring
  | opens hmode =>
      refine h.bracket (h.nested.opens hbound) ?_ ?_ rfl hmode
      · have hmarked := h.marked.append ['(']
        exact ⟨hmarked.pairs, hmarked.unmatched,
          List.forall_mem_cons.mpr ⟨Text.at_last seen '(', hmarked.opened⟩⟩
      · exact places_opens
  | @closes partner rest hmode hopened =>
      have hnested := h.nested
      have hmarked := h.marked.append [')']
      rw [hopened] at hnested hmarked
      refine h.bracket (hnested.closes hbound) ?_ ?_ rfl hmode
      · obtain ⟨hpartner, hrest⟩ := List.forall_mem_cons.mp hmarked.opened
        exact ⟨List.forall_mem_cons.mpr ⟨⟨hpartner, Text.at_last seen ')'⟩, hmarked.pairs⟩,
          hmarked.unmatched, hrest⟩
      · exact places_closes hopened
  | misses hmode hopened =>
      have hnested := h.nested
      rw [hopened] at hnested
      refine h.bracket ?_ ?_ ?_ rfl hmode
      · rw [hopened]
        exact hnested.misses hbound
      · have hmarked := h.marked.append [')']
        exact ⟨hmarked.pairs,
          List.forall_mem_cons.mpr ⟨Text.at_last seen ')', hmarked.unmatched⟩, hmarked.opened⟩
      · exact places_misses hopened

theorem run (h : s.Sound seen) (cs : List Char) :
    (s.run (Text.bytes seen) cs).Sound (seen ++ cs) := by
  induction cs generalizing s seen with
  | nil =>
      rw [List.append_nil]
      exact h
  | cons c cs ih =>
      have hnext := ih (h.advances (s.advances (Text.bytes seen) c))
      rw [List.append_assoc, Text.bytes_append] at hnext
      exact hnext

end Sound

end Scan

theorem exists_sound (line : List Char) :
    ∃ s : Scan, s.Sound line ∧ of line = s.finish (Text.bytes line) :=
  ⟨_, Scan.sound_start.run line, rfl⟩

section

variable (line : List Char)

theorem nested_of :
    Nested (Text.bytes line) (of line).pairs.reverse (of line).unmatched.reverse
      (of line).opened.reverse := by
  obtain ⟨s, hs, heq⟩ := exists_sound line
  rw [heq]
  simpa only [Scan.finish, List.reverse_reverse] using hs.nested

/-- Every bracket that is found is there. -/
theorem marked_of :
    Marked line (of line).pairs (of line).unmatched (of line).opened := by
  obtain ⟨s, hs, heq⟩ := exists_sound line
  rw [heq]
  exact ⟨fun p hp => hs.marked.pairs p (List.mem_reverse.mp hp),
    fun k hk => hs.marked.unmatched k (List.mem_reverse.mp hk),
    fun k hk => hs.marked.opened k (List.mem_reverse.mp hk)⟩

/-- No bracket is found twice. -/
theorem nodup_places :
    (places (of line).pairs (of line).unmatched (of line).opened).Nodup := by
  obtain ⟨s, hs, heq⟩ := exists_sound line
  rw [heq]
  exact (s.finish_places _).nodup_iff.mpr hs.nested.nodup

/-- The strings of a line: those that are closed, and the one that is not, if there is one. -/
theorem strings_of :
    ∃ strings : List Span, (∀ t ∈ strings, Closed line t) ∧
      strings.Pairwise (fun t r => t.stop ≤ r.start) ∧
      ((of line).strings = strings ∧ (of line).inString = false ∨
        ∃ start escaped, Pending line start escaped ∧ (∀ t ∈ strings, t.stop ≤ start) ∧
          (of line).strings = strings ++ [⟨start, Text.bytes line⟩] ∧
          (of line).inString = true) := by
  obtain ⟨s, hs, heq⟩ := exists_sound line
  refine ⟨s.strings.reverse, fun t ht => hs.closed t (List.mem_reverse.mp ht),
    List.pairwise_reverse.mpr hs.apart, ?_⟩
  rw [heq, Scan.finish]
  cases hmode : s.mode with
  | code => exact .inl ⟨by simp [Mode.unclosed?], rfl⟩
  | comment => exact .inl ⟨by simp [Mode.unclosed?], rfl⟩
  | string start escaped =>
      obtain ⟨hpending, -, hstrings⟩ := hs.pending start escaped hmode
      exact .inr ⟨start, escaped, hpending, fun t ht => hstrings t (List.mem_reverse.mp ht), rfl,
        rfl⟩

/-- The byte is in a string. -/
def InString (b : Brackets) (i : Nat) : Prop :=
  ∃ t ∈ b.strings, t.start ≤ i ∧ i < t.stop

/-- No bracket is found in a string. -/
theorem outside_of {k : Nat} {t : Span}
    (hk : k ∈ places (of line).pairs (of line).unmatched (of line).opened)
    (ht : t ∈ (of line).strings) : k < t.start ∨ t.stop ≤ k := by
  obtain ⟨s, hs, heq⟩ := exists_sound line
  rw [heq] at hk ht
  have hplace : k ∈ s.places := (s.finish_places _).mem_iff.mp hk
  rcases List.mem_append.mp ht with ht | ht
  · exact hs.outside k hplace t (List.mem_reverse.mp ht)
  · cases hmode : s.mode with
    | code => simp [hmode, Mode.unclosed?] at ht
    | comment => simp [hmode, Mode.unclosed?] at ht
    | string start escaped =>
        obtain ⟨-, hplaces, -⟩ := hs.pending start escaped hmode
        rw [hmode] at ht
        cases List.mem_singleton.mp ht
        exact .inl (hplaces k hplace)

end

end DualScope.Prompt.Brackets
