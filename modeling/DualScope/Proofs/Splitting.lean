import DualScope.Proofs.Layout
import DualScope.Proofs.Numerals

/-!
# A text and its tokens

The lexer goes over a text from the left. What comes of it can be said without going over the text:
the tokens and the comments stand one behind the other, all that is not in one of them is a blank,
a comment goes on to the end of its line, a literal to the first quote that is not escaped, and
every run of symbol characters that is as long as can be, outside of literals and comments, is one
token. There is no other way to split the text like this, and the lexer finds the one that there
is; where it fails, there is none.

That the runs are as long as can be leaves no choice at any place: the first segment from there on
starts at once or behind blanks, and what it starts with decides where it stops. Literals and
comments do not start or stop in the middle of a run, so that a run which begins outside of them is
outside of them as a whole.
-/

namespace DualScope

namespace Lexer

open Text (bytes)

/-! ## Segments -/

/-- The escapes that are known: the character behind the backslash and what it stands for. -/
inductive Escape : Char → Char → Prop
  | lineFeed : Escape 'n' '\n'
  | carriageReturn : Escape 'r' '\r'
  | tab : Escape 't' '\t'
  | backslash : Escape '\\' '\\'
  | quote : Escape '"' '"'

/-- What the characters between the quotes of a literal stand for. -/
inductive Unescapes : List Char → List Char → Prop
  | nil : Unescapes [] []
  | plain {c : Char} {cs ds : List Char} : c ≠ '"' → c ≠ '\\' → Unescapes cs ds →
    Unescapes (c :: cs) (c :: ds)
  | escape {c d : Char} {cs ds : List Char} : Escape c d → Unescapes cs ds →
    Unescapes ('\\' :: c :: cs) (d :: ds)

/-- The token that a run is as a whole. -/
inductive IsRun : List Char → Token.Kind → Prop
  | dot : IsRun ['.'] .dot
  | truth (b : Bool) : IsRun (truthText b).toList (.boolean b)
  | number {run : List Char} {n : Number.Numeral} : Number.Numeral.Spelled run n →
    IsRun run (.number n.toFloat)
  | symbol {run : List Char} : run ≠ ['.'] → (∀ b, run ≠ (truthText b).toList) →
    (∀ n, ¬ Number.Numeral.Spelled run n) → IsRun run (.symbol (.ofList run))

/-- A part of a text that is not blank. -/
inductive Segment
  | token (t : Token)
  | comment (span : Span)

namespace Segment

def span : Segment → Span
  | .token t => t.span
  | .comment span => span

def token? : Segment → Option Token
  | .token t => some t
  | .comment _ => none

/-- No run is looked for inside. -/
def IsOpaque : Segment → Prop
  | .token ⟨.string _, _⟩ | .comment _ => True
  | _ => False

/-- The characters are those of the segment, where `after` follows them. -/
def Takes (taken after : List Char) : Segment → Prop
  | .comment _ => ∃ body, taken = ';' :: body ∧ (∀ c ∈ body, inComment c = true) ∧
    ∀ c ∈ after.head?, inComment c = false
  | .token ⟨.openParen, _⟩ => taken = ['(']
  | .token ⟨.closeParen, _⟩ => taken = [')']
  | .token ⟨.quote, _⟩ => taken = ['\'']
  | .token ⟨.string s, _⟩ => ∃ inner, taken = '"' :: (inner ++ ['"']) ∧ Unescapes inner s.toList
  | .token _ => ∀ c ∈ taken, inSymbol c = true

end Segment

/-- The place of the characters behind the others, which start at byte `pos`. -/
def place (pos : Nat) (before taken : List Char) : Span :=
  ⟨pos + bytes before, pos + bytes before + bytes taken⟩

theorem place_append (pos : Nat) (front before taken : List Char) :
    place pos (front ++ before) taken = place (pos + bytes front) before taken := by
  simp only [place, Text.bytes_append, Nat.add_assoc]

/-- The characters, which start at byte `pos`, are the segments with blanks between them. -/
structure Splitting (pos : Nat) (cs : List Char) (segments : List Segment) : Prop where
  taken : ∀ p ∈ segments, p.span.start < p.span.stop
  apart : segments.Pairwise fun p q => p.span.stop ≤ q.span.start
  chars : ∀ p ∈ segments, ∃ before taken after, cs = before ++ (taken ++ after) ∧
    p.span = place pos before taken ∧ p.Takes taken after
  /-- What is in no segment is a blank. -/
  gaps : ∀ before c after, cs = before ++ c :: after →
    (∃ p ∈ segments, p.span.start ≤ pos + bytes before ∧ pos + bytes before < p.span.stop) ∨
      isBlank c = true
  /-- Every run that is as long as can be, outside of comments and literals, is a token. -/
  runs : ∀ before run after, cs = before ++ (run ++ after) → run ≠ [] →
    (∀ c ∈ run, inSymbol c = true) → (∀ c ∈ before.getLast?, inSymbol c = false) →
    (∀ c ∈ after.head?, inSymbol c = false) →
    (∀ p ∈ segments, p.IsOpaque → p.span.stop ≤ (place pos before run).start ∨
      (place pos before run).stop ≤ p.span.start) →
    ∃ kind, IsRun run kind ∧ .token ⟨kind, place pos before run⟩ ∈ segments

/-! ## Runs -/

theorem isRun_iff {run : List Char} {kind : Token.Kind} : IsRun run kind ↔ kind = classify run := by
  constructor
  · intro h
    cases h with
    | dot => rfl
    | truth b => cases b <;> rfl
    | number hn => rw [classify_of_parse? (Number.Numeral.parse?_eq_some_iff.mpr hn)]
    | symbol hdot htruth hnumber =>
        have hparse : Number.Numeral.parse? run = none :=
          Option.eq_none_iff_forall_ne_some.mpr fun n hn =>
            hnumber n (Number.Numeral.parse?_eq_some_iff.mp hn)
        have htrue : run ≠ ['#', 't'] := htruth true
        have hfalse : run ≠ ['#', 'f'] := htruth false
        rw [classify, if_neg hdot, if_neg htrue, if_neg hfalse, hparse]
  · rintro rfl
    unfold classify
    split
    · next hdot => exact hdot ▸ .dot
    split
    · next htrue => exact htrue ▸ .truth true
    split
    · next hfalse => exact hfalse ▸ .truth false
    · next hdot htrue hfalse =>
      split
      · next n hn => exact .number (Number.Numeral.parse?_eq_some_iff.mp hn)
      · next hnone =>
        refine .symbol hdot (Bool.rec hfalse htrue) fun n hn => ?_
        rw [Number.Numeral.parse?_eq_some_iff.mpr hn] at hnone
        cases hnone

theorem IsRun.takes {run taken : List Char} {kind : Token.Kind} (h : IsRun run kind)
    (htaken : ∀ c ∈ taken, inSymbol c = true) (after : List Char) (span : Span) :
    (Segment.token ⟨kind, span⟩).Takes taken after := by
  cases h with
  | dot => exact htaken
  | truth b => exact htaken
  | number _ => exact htaken
  | symbol _ _ _ => exact htaken

/-! ## Literals -/

theorem unescape?_eq_some_iff {c d : Char} : unescape? c = some d ↔ Escape c d := by
  constructor
  · intro h
    unfold unescape? at h
    split at h <;> cases h
    · exact .lineFeed
    · exact .carriageReturn
    · exact .tab
    · exact .backslash
    · exact .quote
  · rintro (_ | _ | _ | _ | _) <;> rfl

theorem Unescapes.inside {inner ds : List Char} (h : Unescapes inner ds) : Inside inner := by
  induction h with
  | nil => exact .nil
  | plain hquote hbackslash _ ih => exact .plain hquote hbackslash ih
  | escape hc _ ih =>
      refine .escape ?_ ih
      rintro rfl
      cases hc

theorem Unescapes.contents {inner ds : List Char} (h : Unescapes inner ds) (taken : List Char) :
    contents taken inner = .ok (taken.reverse ++ ds) := by
  induction h generalizing taken with
  | nil => simp [Lexer.contents]
  | plain _ hbackslash _ ih =>
      rw [contents_cons hbackslash, ih]
      simp
  | escape hc _ ih =>
      rw [Lexer.contents, unescape?_eq_some_iff.mpr hc]
      simp [ih]

theorem unescapes_of_contents {inner taken ds : List Char} (h : Inside inner)
    (hds : contents taken inner = .ok ds) : ∃ more, ds = taken.reverse ++ more ∧
      Unescapes inner more := by
  induction h generalizing taken with
  | nil =>
      cases hds
      exact ⟨[], by simp, .nil⟩
  | @plain c cs hquote hbackslash _ ih =>
      rw [contents_cons hbackslash] at hds
      obtain ⟨more, rfl, hmore⟩ := ih hds
      exact ⟨c :: more, by simp, .plain hquote hbackslash hmore⟩
  | @escape c cs _ _ ih =>
      rw [contents] at hds
      split at hds
      · next d hd =>
        obtain ⟨more, rfl, hmore⟩ := ih hds
        exact ⟨d :: more, by simp, .escape (unescape?_eq_some_iff.mp hd) hmore⟩
      · cases hds

theorem munch_literal {inner : List Char} {s : String} (h : Unescapes inner s.toList)
    (after : List Char) :
    munch '"' (inner ++ '"' :: after) = (.ok (.string s), '"' :: (inner ++ ['"']), after) := by
  have hliteral : literal [] (inner ++ '"' :: after) = (inner ++ ['"'], after) :=
    literal_inside h.inside [] after
  have hread : readLiteral (inner ++ ['"']) = .ok (.string s) := by
    rw [readLiteral_quote, h.contents]
    simp [Except.map]
  show (readLiteral (literal [] _).1, '"' :: (literal [] _).1, (literal [] _).2) = _
  rw [hliteral, hread]

/-! ## Characters of segments -/

namespace Segment

variable {p : Segment} {taken after : List Char}

/-- What a segment starts with decides whether it is a run. -/
theorem Takes.head (h : p.Takes taken after) :
    (∀ c ∈ taken, inSymbol c = true) ∧ ¬ p.IsOpaque ∨
      ∃ c more, taken = c :: more ∧ inSymbol c = false ∧ Text.opensLikePictograph c = false := by
  cases p with
  | comment span =>
      obtain ⟨body, rfl, -⟩ := h
      exact .inr ⟨_, _, rfl, by decide, by decide⟩
  | token t =>
      obtain ⟨kind, span⟩ := t
      cases kind with
      | openParen => exact .inr ⟨_, _, h, by decide, by decide⟩
      | closeParen => exact .inr ⟨_, _, h, by decide, by decide⟩
      | quote => exact .inr ⟨_, _, h, by decide, by decide⟩
      | string s =>
          obtain ⟨inner, rfl, -⟩ := h
          exact .inr ⟨_, _, rfl, by decide, by decide⟩
      | dot => exact .inl ⟨h, id⟩
      | symbol name => exact .inl ⟨h, id⟩
      | number x => exact .inl ⟨h, id⟩
      | boolean b => exact .inl ⟨h, id⟩

end Segment

/-- The characters behind others are behind all of `front`, or they start in it. -/
theorem cases_of_append {front rest before others : List Char}
    (h : front ++ rest = before ++ others) :
    (∃ mid, before = front ++ mid ∧ rest = mid ++ others) ∨
      ∃ c mid, front = before ++ c :: mid ∧ others = c :: (mid ++ rest) := by
  rcases List.append_eq_append_iff.mp h with ⟨mid, hbefore, hrest⟩ | ⟨mid, hfront, hothers⟩
  · exact .inl ⟨mid, hbefore, hrest⟩
  · cases mid with
    | nil => exact .inl ⟨[], by simpa using hfront.symm, by simpa using hothers.symm⟩
    | cons c mid => exact .inr ⟨c, mid, hfront, hothers⟩

theorem bytes_lt_of_mid {front before mid : List Char} {c : Char} (h : front = before ++ c :: mid) :
    bytes before < bytes front := by
  have hc := c.utf8Size_pos
  rw [h, Text.bytes_append, Text.bytes_cons]
  omega

/-! ## Splittings put together -/

namespace Splitting

variable {pos : Nat} {front rest : List Char} {segments : List Segment}

theorem nil (pos : Nat) : Splitting pos [] [] where
  taken _ hp := by cases hp
  apart := .nil
  chars _ hp := by cases hp
  gaps before c after h := by simp at h
  runs before run after h hrun := by simp_all

/-- The segments of the rest are segments of the whole. -/
theorem chars_behind (h : Splitting (pos + bytes front) rest segments) :
    ∀ p ∈ segments, ∃ before taken after, front ++ rest = before ++ (taken ++ after) ∧
      p.span = place pos before taken ∧ p.Takes taken after := by
  intro p hp
  obtain ⟨before, taken, after, rfl, hspan, htakes⟩ := h.chars p hp
  exact ⟨front ++ before, taken, after, by rw [List.append_assoc], by rw [hspan, place_append],
    htakes⟩

theorem start_le (h : Splitting pos rest segments) : ∀ p ∈ segments, pos ≤ p.span.start := by
  intro p hp
  obtain ⟨before, taken, after, -, hspan, -⟩ := h.chars p hp
  rw [hspan]
  exact Nat.le_add_right _ _

theorem gap_behind (h : Splitting (pos + bytes front) rest segments) {mid after : List Char}
    {c : Char} (hrest : rest = mid ++ c :: after) :
    (∃ p ∈ segments, p.span.start ≤ pos + bytes (front ++ mid) ∧
      pos + bytes (front ++ mid) < p.span.stop) ∨ isBlank c = true := by
  rw [Text.bytes_append, ← Nat.add_assoc]
  exact h.gaps mid c after hrest

/-- A run behind what is in front is a token of the rest. -/
theorem run_behind (h : Splitting (pos + bytes front) rest segments) {mid run after : List Char}
    (hrest : rest = mid ++ (run ++ after)) (hne : run ≠ []) (hrun : ∀ c ∈ run, inSymbol c = true)
    (hbefore : ∀ c ∈ (front ++ mid).getLast?, inSymbol c = false)
    (hafter : ∀ c ∈ after.head?, inSymbol c = false)
    (hsealed : ∀ p ∈ segments, p.IsOpaque → p.span.stop ≤ (place pos (front ++ mid) run).start ∨
      (place pos (front ++ mid) run).stop ≤ p.span.start) :
    ∃ kind, IsRun run kind ∧ .token ⟨kind, place pos (front ++ mid) run⟩ ∈ segments := by
  rw [place_append] at hsealed ⊢
  refine h.runs mid run after hrest hne hrun (fun c hc => hbefore c ?_) hafter hsealed
  rw [List.getLast?_append, Option.mem_def.mp hc, Option.some_or]
  rfl

/-- A run that begins in a segment or a blank is the whole of it. -/
theorem run_in_front {head : Option Segment} {before mid run after : List Char} {c : Char}
    (hhead : ∀ p ∈ head, p.span = place pos [] front)
    (hruns : ∀ c ∈ front, inSymbol c = true → (∃ p ∈ head, p.IsOpaque) ∨
      ∃ kind, IsRun front kind ∧ head = some (.token ⟨kind, place pos [] front⟩) ∧
        (∀ c ∈ front, inSymbol c = true) ∧ ∀ c ∈ rest.head?, inSymbol c = false)
    (hfront : front = before ++ c :: mid) (hothers : run ++ after = c :: (mid ++ rest))
    (hne : run ≠ []) (hrun : ∀ c ∈ run, inSymbol c = true)
    (hbefore : ∀ c ∈ before.getLast?, inSymbol c = false)
    (hafter : ∀ c ∈ after.head?, inSymbol c = false)
    (hsealed : ∀ p ∈ head, p.IsOpaque → p.span.stop ≤ (place pos before run).start ∨
      (place pos before run).stop ≤ p.span.start) :
    ∃ kind, IsRun run kind ∧ head = some (.token ⟨kind, place pos before run⟩) := by
  obtain ⟨d, run, rfl⟩ := List.exists_cons_of_ne_nil hne
  obtain rfl : d = c := (List.cons.inj hothers).1
  have hd : inSymbol d = true := hrun d List.mem_cons_self
  have hmem : d ∈ front := by simp [hfront]
  rcases hruns d hmem hd with ⟨p, hp, hpo⟩ | ⟨kind, hkind, rfl, hall, hrest⟩
  · -- The run would overlap with the literal or the comment that it begins in.
    have hspan := hhead p hp
    have hlt := bytes_lt_of_mid hfront
    have hpos := d.utf8Size_pos
    rcases hsealed p hp hpo with hover | hover
    · rw [hspan] at hover
      simp only [place, Text.bytes_nil] at hover
      omega
    · rw [hspan] at hover
      simp only [place, Text.bytes_nil, Text.bytes_cons] at hover
      omega
  · -- In front of the run there is no character of the other one, and both end where they must.
    have hnil : before = [] := by
      by_contra hne
      have hlast := hbefore _ (List.getLast?_eq_some_getLast hne)
      rw [hall _ (by rw [hfront]; exact List.mem_append_left _ (List.getLast_mem hne))] at hlast
      cases hlast
    subst hnil
    have hsame : d :: run = front := by
      have htext : d :: run ++ after = front ++ rest := by
        rw [hothers, hfront]
        rfl
      rw [← Text.takeWhile_run hrun after hafter, htext, Text.takeWhile_run hall rest hrest]
    exact ⟨kind, hsame ▸ hkind, by rw [hsame]⟩

/-- A segment or a blank can be put in front. -/
theorem behind {head : Option Segment} (hfront : front ≠ [])
    (hhead : ∀ p ∈ head, p.span = place pos [] front ∧ p.Takes front rest)
    (hblank : head = none → ∀ c ∈ front, isBlank c = true)
    (hruns : ∀ c ∈ front, inSymbol c = true → (∃ p ∈ head, p.IsOpaque) ∨
      ∃ kind, IsRun front kind ∧ head = some (.token ⟨kind, place pos [] front⟩) ∧
        (∀ c ∈ front, inSymbol c = true) ∧ ∀ c ∈ rest.head?, inSymbol c = false)
    (h : Splitting (pos + bytes front) rest segments) :
    Splitting pos (front ++ rest) (head.toList ++ segments) where
  taken p hp := by
    rcases List.mem_append.mp hp with hp | hp
    · rw [(hhead p (Option.mem_toList.mp hp)).1]
      exact Nat.lt_add_of_pos_right (bytes_pos hfront)
    · exact h.taken p hp
  apart := by
    cases head with
    | none => exact h.apart
    | some p =>
        refine .cons (fun q hq => ?_) h.apart
        rw [(hhead p rfl).1]
        exact h.start_le q hq
  chars p hp := by
    rcases List.mem_append.mp hp with hp | hp
    · obtain ⟨hspan, htakes⟩ := hhead p (Option.mem_toList.mp hp)
      exact ⟨[], front, rest, rfl, hspan, htakes⟩
    · exact h.chars_behind p hp
  gaps before c after hcs := by
    rcases cases_of_append hcs with ⟨mid, rfl, hrest⟩ | ⟨d, mid, hin, hothers⟩
    · refine (h.gap_behind hrest).imp_left ?_
      rintro ⟨p, hp, hcovered⟩
      exact ⟨p, List.mem_append_right _ hp, hcovered⟩
    · obtain ⟨rfl, -⟩ := List.cons.inj hothers
      cases head with
      | none => exact .inr (hblank rfl c (by simp [hin]))
      | some p =>
          have hlt := bytes_lt_of_mid hin
          refine .inl ⟨p, List.mem_cons_self, ?_⟩
          rw [(hhead p rfl).1]
          simp only [place, Text.bytes_nil]
          omega
  runs before run after hcs hne hrun hbefore hafter hsealed := by
    rcases cases_of_append hcs with ⟨mid, rfl, hrest⟩ | ⟨d, mid, hin, hothers⟩
    · obtain ⟨kind, hkind, hmem⟩ := h.run_behind hrest hne hrun hbefore hafter fun p hp =>
        hsealed p (List.mem_append_right _ hp)
      exact ⟨kind, hkind, List.mem_append_right _ hmem⟩
    · obtain ⟨kind, hkind, hmem⟩ := run_in_front (fun p hp => (hhead p hp).1) hruns hin hothers hne
        hrun hbefore hafter fun p hp => hsealed p (List.mem_append_left _ (Option.mem_toList.mpr hp))
      exact ⟨kind, hkind, by simp [hmem]⟩

end Splitting

/-! ## What the lexer takes -/

theorem literal_of_munch {cs taken rest : List Char} {kind : Token.Kind}
    (h : munch '"' cs = (.ok kind, taken, rest)) (span : Span) :
    (Segment.token ⟨kind, span⟩).Takes taken rest ∧ (Segment.token ⟨kind, span⟩).IsOpaque := by
  obtain ⟨body, after, hmunch, hends⟩ := munch_quote cs
  rw [hmunch] at h
  injection h with hread h
  injection h with htaken hafter
  subst htaken hafter
  obtain ⟨⟨s, rfl⟩, inner, hinner, rfl⟩ := hends.of_ok hread
  refine ⟨⟨inner, rfl, ?_⟩, trivial⟩
  rw [readLiteral_quote] at hread
  cases hcontents : contents [] inner with
  | error fault =>
      rw [hcontents] at hread
      cases hread
  | ok ds =>
      rw [hcontents] at hread
      cases hread
      obtain ⟨more, rfl, hmore⟩ := unescapes_of_contents hinner hcontents
      simpa using hmore

/-- The characters of a token are what they should be, and a run stops where it has to. -/
theorem front_of_munch {c : Char} {cs taken rest : List Char} {kind : Token.Kind}
    (h : munch c cs = (.ok kind, taken, rest)) (span : Span) :
    (Segment.token ⟨kind, span⟩).Takes taken rest ∧ ∀ d ∈ taken, inSymbol d = true →
      (Segment.token ⟨kind, span⟩).IsOpaque ∨
        IsRun taken kind ∧ (∀ e ∈ taken, inSymbol e = true) ∧
          ∀ e ∈ rest.head?, inSymbol e = false := by
  by_cases hquote : c = '"'
  · subst hquote
    obtain ⟨htakes, hsealed⟩ := literal_of_munch h span
    exact ⟨htakes, fun _ _ _ => .inl hsealed⟩
  by_cases hsymbol : inSymbol c = true
  · rw [munch_symbol hsymbol] at h
    injection h with hread h
    injection h with htaken hafter
    subst htaken hafter
    have hrun : ∀ d ∈ c :: cs.takeWhile inSymbol, inSymbol d = true :=
      List.forall_mem_cons.mpr ⟨hsymbol, fun d hd => List.mem_takeWhile_imp hd⟩
    have hkind := eq_classify_of_readRun hread
    exact ⟨(isRun_iff.mpr hkind).takes hrun _ span, fun _ _ _ => .inr ⟨isRun_iff.mpr hkind, hrun,
      fun d hd => false_of_mem_head?_dropWhile hd⟩⟩
  have hone : ∀ d ∈ [c], inSymbol d = true → False := by
    intro d hd htrue
    rw [List.mem_singleton.mp hd] at htrue
    exact hsymbol htrue
  -- What is left are the brackets and the quote mark.
  unfold munch at h
  iterate 3
    split at h
    · next hc =>
      cases h
      exact ⟨congrArg (fun d => [d]) hc, fun d hd htrue => (hone d hd htrue).elim⟩
  cases h

/-- What the lexer finds is a splitting of the text. -/
theorem Laid.splitting {pos : Nat} {cs : List Char} {ts : List Token} (h : Laid pos cs ts) :
    ∃ segments, Splitting pos cs segments ∧ segments.filterMap Segment.token? = ts := by
  induction h with
  | nil pos => exact ⟨[], .nil pos, rfl⟩
  | @blank pos c cs ts hc _ ih =>
      obtain ⟨segments, hsplit, rfl⟩ := ih
      have hfront : Splitting (pos + bytes [c]) cs segments := by simpa using hsplit
      have hnone : ∀ p ∈ (none : Option Segment), p.span = place pos [] [c] ∧ p.Takes [c] cs := nofun
      refine ⟨segments, hfront.behind (List.cons_ne_nil c []) hnone ?_ ?_, rfl⟩
      · intro _ d hd
        rw [List.mem_singleton.mp hd]
        exact hc
      · intro d hd hsymbol
        rw [List.mem_singleton.mp hd] at hsymbol
        rw [isBlank_of_inSymbol hsymbol] at hc
        cases hc
  | @comment pos cs ts _ ih =>
      obtain ⟨segments, hsplit, rfl⟩ := ih
      let p := Segment.comment (place pos [] (';' :: cs.takeWhile inComment))
      have htakes : p.Takes (';' :: cs.takeWhile inComment) (cs.dropWhile inComment) :=
        ⟨_, rfl, fun c hc => List.mem_takeWhile_imp hc, fun c hc => false_of_mem_head?_dropWhile hc⟩
      have hp : ∀ q ∈ some p, q.span = place pos [] (';' :: cs.takeWhile inComment) ∧
          q.Takes (';' :: cs.takeWhile inComment) (cs.dropWhile inComment) := by
        rintro _ ⟨⟩
        exact ⟨rfl, htakes⟩
      have hwhole := hsplit.behind (List.cons_ne_nil ';' _) hp nofun fun _ _ _ =>
        .inl ⟨p, rfl, trivial⟩
      rw [List.cons_append, List.takeWhile_append_dropWhile] at hwhole
      exact ⟨_, hwhole, rfl⟩
  | @token pos c cs taken rest kind ts hc hcomment hmunch _ ih =>
      obtain ⟨segments, hsplit, rfl⟩ := ih
      let p := Segment.token ⟨kind, place pos [] taken⟩
      obtain ⟨htakes, hruns⟩ := front_of_munch hmunch (place pos [] taken)
      obtain ⟨hcs, -⟩ := lexeme_of_munch hmunch
      have hne : taken ≠ [] := by
        obtain ⟨more, rfl, -⟩ := munch_of_continues hmunch (Continues.of_prefix List.nil_prefix)
        exact List.cons_ne_nil c more
      have hp : ∀ q ∈ some p, q.span = place pos [] taken ∧ q.Takes taken rest := by
        rintro _ ⟨⟩
        exact ⟨rfl, htakes⟩
      have hwhole := hsplit.behind hne hp nofun fun d hd hsymbol =>
        (hruns d hd hsymbol).imp (fun ho => ⟨p, rfl, ho⟩) fun ⟨hkind, hall, hstop⟩ =>
          ⟨kind, hkind, rfl, hall, hstop⟩
      rw [hcs] at hwhole
      exact ⟨_, hwhole, rfl⟩

/-! ## Splittings taken apart -/

namespace Splitting

variable {pos : Nat} {front rest : List Char} {heads segments : List Segment}

/-- What is in front of a run is no symbol character, also where the run is at the edge. -/
theorem last_of_edge {before run after : List Char} (hrest : rest = before ++ (run ++ after))
    (hne : run ≠ []) (hrun : ∀ c ∈ run, inSymbol c = true)
    (hbefore : ∀ c ∈ before.getLast?, inSymbol c = false)
    (hedge : ∀ c ∈ front.getLast?, inSymbol c = true → ∀ d ∈ rest.head?, inSymbol d = false) :
    ∀ c ∈ (front ++ before).getLast?, inSymbol c = false := by
  intro c hc
  cases before with
  | nil =>
      obtain ⟨d, run, rfl⟩ := List.exists_cons_of_ne_nil hne
      rw [List.append_nil] at hc
      have hd : d ∈ rest.head? := by rw [hrest]; rfl
      refine Bool.eq_false_iff.mpr fun htrue => ?_
      have hfalse := hedge c hc htrue d hd
      rw [hrun d List.mem_cons_self] at hfalse
      cases hfalse
  | cons d before =>
      refine hbefore c ?_
      rw [List.getLast?_append, List.getLast?_cons] at hc
      rw [List.getLast?_cons]
      exact hc

/-- A run of the rest is a token behind the front. -/
theorem run_dropped (h : Splitting pos (front ++ rest) (heads ++ segments))
    (hheads : ∀ p ∈ heads, p.span.stop ≤ pos + bytes front) {before run after : List Char}
    (hrest : rest = before ++ (run ++ after)) (hne : run ≠ [])
    (hrun : ∀ c ∈ run, inSymbol c = true)
    (hlast : ∀ c ∈ (front ++ before).getLast?, inSymbol c = false)
    (hafter : ∀ c ∈ after.head?, inSymbol c = false)
    (hsealed : ∀ p ∈ segments, p.IsOpaque →
      p.span.stop ≤ (place (pos + bytes front) before run).start ∨
        (place (pos + bytes front) before run).stop ≤ p.span.start) :
    ∃ kind, IsRun run kind ∧
      .token ⟨kind, place (pos + bytes front) before run⟩ ∈ segments := by
  have hcs : front ++ rest = (front ++ before) ++ (run ++ after) := by
    rw [hrest, List.append_assoc]
  have hpos : 0 < bytes run := bytes_pos hne
  have hall : ∀ p ∈ heads ++ segments, p.IsOpaque →
      p.span.stop ≤ (place pos (front ++ before) run).start ∨
        (place pos (front ++ before) run).stop ≤ p.span.start := by
    intro p hp hpo
    rw [place_append]
    rcases List.mem_append.mp hp with hp | hp
    · have hle := hheads p hp
      refine .inl ?_
      simp only [place]
      omega
    · exact hsealed p hp hpo
  obtain ⟨kind, hkind, hmem⟩ := h.runs _ run after hcs hne hrun hlast hafter hall
  rw [place_append] at hmem
  refine ⟨kind, hkind, (List.mem_append.mp hmem).resolve_left fun hmem => ?_⟩
  have hle := hheads _ hmem
  simp only [Segment.span, place] at hle
  omega

/-- Where no run goes on from the front to the rest, the segments behind the front split the rest. -/
theorem drop (h : Splitting pos (front ++ rest) (heads ++ segments))
    (hheads : ∀ p ∈ heads, p.span.stop ≤ pos + bytes front)
    (hsegments : ∀ p ∈ segments, pos + bytes front ≤ p.span.start)
    (hedge : ∀ c ∈ front.getLast?, inSymbol c = true → ∀ d ∈ rest.head?, inSymbol d = false) :
    Splitting (pos + bytes front) rest segments where
  taken p hp := h.taken p (List.mem_append_right _ hp)
  apart := (List.pairwise_append.mp h.apart).2.1
  chars p hp := by
    obtain ⟨before, taken, after, hcs, hspan, htakes⟩ := h.chars p (List.mem_append_right _ hp)
    rcases cases_of_append hcs with ⟨mid, rfl, hrest⟩ | ⟨c, mid, hin, -⟩
    · exact ⟨mid, taken, after, hrest, by rw [hspan, place_append], htakes⟩
    · have hlt := bytes_lt_of_mid hin
      have hle := hsegments p hp
      rw [hspan] at hle
      simp only [place] at hle
      omega
  gaps before c after hrest := by
    have hcs : front ++ rest = (front ++ before) ++ c :: after := by
      rw [hrest, List.append_assoc]
    refine (h.gaps _ c after hcs).imp_left ?_
    rintro ⟨p, hp, hstart, hstop⟩
    rw [Text.bytes_append, ← Nat.add_assoc] at hstart hstop
    rcases List.mem_append.mp hp with hp | hp
    · have := hheads p hp
      omega
    · exact ⟨p, hp, hstart, hstop⟩
  runs before run after hrest hne hrun hbefore hafter hsealed :=
    h.run_dropped hheads hrest hne hrun (last_of_edge hrest hne hrun hbefore hedge) hafter hsealed

/-- What is not blank at the beginning is the first segment. -/
theorem eq_cons_of_covered {cs : List Char} (h : Splitting pos cs segments) {p : Segment}
    (hp : p ∈ segments) (hstart : p.span.start ≤ pos) :
    ∃ others taken after, segments = p :: others ∧ cs = taken ++ after ∧ taken ≠ [] ∧
      p.span = place pos [] taken ∧ p.Takes taken after := by
  obtain ⟨before, taken, after, hcs, hspan, htakes⟩ := h.chars p hp
  have htaken := h.taken p hp
  have hbefore : before = [] := by
    refine Text.eq_nil_of_bytes ?_
    rw [hspan] at hstart
    simp only [place] at hstart
    omega
  subst hbefore
  have hne : taken ≠ [] := by
    rintro rfl
    rw [hspan] at htaken
    exact Nat.lt_irrefl _ htaken
  cases segments with
  | nil => cases hp
  | cons q others =>
      rcases List.mem_cons.mp hp with rfl | hp
      · exact ⟨others, taken, after, rfl, hcs, hne, hspan, htakes⟩
      · have hapart := List.rel_of_pairwise_cons h.apart hp
        have hqstart := h.start_le q List.mem_cons_self
        have hqtaken := h.taken q List.mem_cons_self
        omega

/-- All that follows the first segment is behind it. -/
theorem tail {p : Segment} (h : Splitting pos (front ++ rest) (p :: segments))
    (hspan : p.span = place pos [] front)
    (hedge : ∀ c ∈ front.getLast?, inSymbol c = true → ∀ d ∈ rest.head?, inSymbol d = false) :
    Splitting (pos + bytes front) rest segments := by
  have hstop : p.span.stop = pos + bytes front := by rw [hspan]; rfl
  refine @drop pos front rest [p] segments h ?_ ?_ hedge
  · intro q hq
    rw [List.mem_singleton.mp hq, hstop]
  · intro q hq
    rw [← hstop]
    exact List.rel_of_pairwise_cons h.apart hq

/-- What is at the beginning in no segment is a blank in front of them. -/
theorem tail_blank {c : Char} (h : Splitting pos (c :: rest) segments)
    (hc : ∀ p ∈ segments, pos < p.span.start) : isBlank c = true ∧
      Splitting (pos + c.utf8Size) rest segments := by
  have hblank : isBlank c = true := by
    refine (h.gaps [] c rest rfl).resolve_left ?_
    rintro ⟨p, hp, hstart, -⟩
    exact Nat.lt_irrefl _ (Nat.lt_of_lt_of_le (hc p hp) hstart)
  have hedge : ∀ d ∈ [c].getLast?, inSymbol d = true → ∀ e ∈ rest.head?, inSymbol e = false := by
    rintro d hd hsymbol
    cases hd
    have hfalse : isBlank c = false := isBlank_of_inSymbol hsymbol
    rw [hblank] at hfalse
    cases hfalse
  refine ⟨hblank, @drop pos [c] rest [] segments h nofun (fun p hp => ?_) hedge⟩
  obtain ⟨before, taken, after, hcs, hspan, -⟩ := h.chars p hp
  have hlt := hc p hp
  rw [hspan] at hlt ⊢
  cases before with
  | nil => exact absurd hlt (Nat.lt_irrefl pos)
  | cons d before =>
      cases (List.cons.inj hcs).1
      simp only [place, Text.bytes_cons, Text.bytes_nil]
      omega

/-- A run at the beginning is the first segment, and it is the token that it should be. -/
theorem run_first {p : Segment} {run after : List Char}
    (h : Splitting pos (run ++ after) (p :: segments)) (hp : p.span.start = pos)
    (hpo : ¬ p.IsOpaque) (hne : run ≠ []) (hrun : ∀ c ∈ run, inSymbol c = true)
    (hafter : ∀ c ∈ after.head?, inSymbol c = false) :
    p = .token ⟨classify run, place pos [] run⟩ := by
  have hptaken := h.taken p List.mem_cons_self
  have hsealed : ∀ q ∈ p :: segments, q.IsOpaque →
      q.span.stop ≤ (place pos [] run).start ∨ (place pos [] run).stop ≤ q.span.start := by
    intro q hq hqo
    right
    obtain ⟨before, taken, rest, hcs, hspan, htakes⟩ := h.chars q hq
    rcases cases_of_append hcs with ⟨mid, rfl, -⟩ | ⟨c, mid, hin, hothers⟩
    · rw [hspan]
      simp only [place, Text.bytes_append, Text.bytes_nil]
      omega
    · -- Neither a literal nor a comment starts with a symbol character.
      obtain ⟨-, hno⟩ | ⟨d, more, rfl, hd, -⟩ := htakes.head
      · exact absurd hqo hno
      · have hcd : d = c := (List.cons.inj hothers).1
        rw [hrun d (by rw [hin, hcd]; simp)] at hd
        cases hd
  obtain ⟨kind, hkind, hmem⟩ := h.runs [] run after rfl hne hrun nofun hafter hsealed
  rcases List.mem_cons.mp hmem with rfl | hmem
  · rw [isRun_iff.mp hkind]
  · have hapart : p.span.stop ≤ pos := List.rel_of_pairwise_cons h.apart hmem
    omega

/-- Behind a run there is nothing for whose sake it would be a fault. -/
theorem delimited (h : Splitting pos rest segments)
    (hrest : ∀ c ∈ rest.head?, inSymbol c = false) : Delimited rest := by
  intro c hc
  refine ⟨hrest c hc, ?_⟩
  cases rest with
  | nil => cases hc
  | cons d rest =>
      cases hc
      rcases h.gaps [] c rest rfl with ⟨p, hp, hstart, -⟩ | hblank
      · obtain ⟨others, taken, after, rfl, hcs, hne, -, htakes⟩ := h.eq_cons_of_covered hp hstart
        obtain ⟨hall, -⟩ | ⟨e, more, rfl, -, hopens⟩ := htakes.head
        · obtain ⟨e, more, rfl⟩ := List.exists_cons_of_ne_nil hne
          cases (List.cons.inj hcs).1
          have hfalse := hrest c rfl
          rw [hall c List.mem_cons_self] at hfalse
          cases hfalse
        · cases (List.cons.inj hcs).1
          exact hopens
      · simp only [isBlank, Bool.or_eq_true, decide_eq_true_eq] at hblank
        rcases hblank with ((rfl | rfl) | rfl) | rfl <;> decide

/-- A segment that is no run is what the lexer takes at the beginning. -/
theorem laid_segment {p : Segment} {c : Char} {more : List Char}
    (h : Splitting pos (c :: more ++ rest) (p :: segments)) (hspan : p.span = place pos [] (c :: more))
    (htakes : p.Takes (c :: more) rest) (hc : inSymbol c = false)
    (ih : Splitting (pos + bytes (c :: more)) rest segments →
      Laid (pos + bytes (c :: more)) rest (segments.filterMap Segment.token?)) :
    Laid pos (c :: more ++ rest) ((p :: segments).filterMap Segment.token?) := by
  -- A mark of one character ends where it starts, so that no run goes on from it.
  have hmark : ∀ d, c :: more = [d] → ∀ e ∈ (c :: more).getLast?, inSymbol e = true →
      ∀ f ∈ rest.head?, inSymbol f = false := by
    rintro d ⟨⟩ e ⟨⟩ he
    exact absurd (hc.symm.trans he) Bool.false_ne_true
  cases p with
  | comment span =>
      obtain ⟨body, ⟨⟩, hbody, hstop⟩ := htakes
      have hedge : ∀ d ∈ rest.head?, inSymbol d = false := by
        intro d hd
        have hline : d = '\n' ∨ d = '\r' := by
          have hd := hstop d hd
          by_contra hno
          simp_all [inComment]
        rcases hline with rfl | rfl <;> decide
      exact .of_comment hbody hstop (ih (h.tail hspan fun _ _ _ => hedge))
  | token t =>
      obtain ⟨kind, span⟩ := t
      obtain rfl : span = place pos [] (c :: more) := hspan
      cases kind with
      | openParen =>
          cases htakes
          exact .token rfl (by decide) rfl (ih (h.tail rfl (hmark _ rfl)))
      | closeParen =>
          cases htakes
          exact .token rfl (by decide) rfl (ih (h.tail rfl (hmark _ rfl)))
      | quote =>
          cases htakes
          exact .token rfl (by decide) rfl (ih (h.tail rfl (hmark _ rfl)))
      | string s =>
          obtain ⟨inner, ⟨⟩, hinner⟩ := htakes
          have hmunch := munch_literal hinner rest
          rw [← List.singleton_append (l := rest), ← List.append_assoc] at hmunch
          refine .token rfl (by decide) hmunch (ih (h.tail rfl ?_))
          intro d hd hsymbol
          rw [← List.cons_append, List.getLast?_concat] at hd
          cases hd
          exact absurd hsymbol (by decide)
      | dot => exact absurd (htakes c List.mem_cons_self) (by simp [hc])
      | symbol name => exact absurd (htakes c List.mem_cons_self) (by simp [hc])
      | number x => exact absurd (htakes c List.mem_cons_self) (by simp [hc])
      | boolean b => exact absurd (htakes c List.mem_cons_self) (by simp [hc])

/-- A run is what the lexer takes at the beginning. -/
theorem laid_run {p : Segment} {run : List Char} (h : Splitting pos (run ++ rest) (p :: segments))
    (hp : p.span.start = pos) (hpo : ¬ p.IsOpaque) (hne : run ≠ [])
    (hrun : ∀ c ∈ run, inSymbol c = true) (hrest : ∀ c ∈ rest.head?, inSymbol c = false)
    (ih : Splitting (pos + bytes run) rest segments →
      Laid (pos + bytes run) rest (segments.filterMap Segment.token?)) :
    Laid pos (run ++ rest) ((p :: segments).filterMap Segment.token?) := by
  obtain rfl := h.run_first hp hpo hne hrun hrest
  have hbehind := h.tail rfl fun _ _ _ => hrest
  have hread := readRun_of_delimited (hbehind.delimited hrest) run
  obtain ⟨c, run, rfl⟩ := List.exists_cons_of_ne_nil hne
  obtain ⟨hc, hmore⟩ := List.forall_mem_cons.mp hrun
  have hmunch : munch c (run ++ rest) = (.ok (classify (c :: run)), c :: run, rest) := by
    rw [munch_symbol hc, Text.takeWhile_run hmore rest hrest, Text.dropWhile_run hmore rest hrest,
      hread]
  exact .token (isBlank_of_inSymbol hc) (ne_of_inSymbol hc (by decide)) hmunch (ih hbehind)

/-- The lexer finds the splitting. -/
theorem laid {cs : List Char} (h : Splitting pos cs segments) :
    Laid pos cs (segments.filterMap Segment.token?) := by
  induction hn : cs.length using Nat.strong_induction_on generalizing pos cs segments with
  | _ n ih =>
  subst hn
  by_cases hcovered : ∃ p ∈ segments, p.span.start ≤ pos
  · obtain ⟨p, hp, hstart⟩ := hcovered
    obtain ⟨others, taken, after, rfl, rfl, hne, hspan, htakes⟩ := h.eq_cons_of_covered hp hstart
    have hpstart : p.span.start = pos := by rw [hspan]; rfl
    obtain ⟨c, more, rfl⟩ := List.exists_cons_of_ne_nil hne
    obtain ⟨hall, hno⟩ | ⟨d, more', ⟨⟩, hc, -⟩ := htakes.head
    · -- The segment is all of the run, since that is what the splitting says of runs.
      have hwhole := List.takeWhile_append_dropWhile (p := inSymbol) (l := c :: more ++ after)
      have hrun : (c :: more ++ after).takeWhile inSymbol ≠ [] := by
        simp [hall c List.mem_cons_self]
      have hshort := congrArg List.length hwhole
      have hpos := List.length_pos_iff.mpr hrun
      rw [List.length_append] at hshort
      rw [← hwhole] at h ⊢
      refine h.laid_run hpstart hno hrun (fun d hd => List.mem_takeWhile_imp hd)
        (fun d hd => false_of_mem_head?_dropWhile hd) fun hrest => ih _ ?_ hrest rfl
      omega
    · have hshorter : after.length < (c :: more ++ after).length := by
        simp only [List.cons_append, List.length_cons, List.length_append]
        omega
      exact h.laid_segment hspan htakes hc fun hrest => ih _ hshorter hrest rfl
  · have hlater : ∀ p ∈ segments, pos < p.span.start := fun p hp =>
      Nat.lt_of_not_le fun hle => hcovered ⟨p, hp, hle⟩
    cases cs with
    | nil =>
        have hnone : segments = [] := by
          refine List.eq_nil_iff_forall_not_mem.mpr fun p hp => ?_
          obtain ⟨before, taken, after, hcs, hspan, -⟩ := h.chars p hp
          have hlt := hlater p hp
          rw [hspan, (List.append_eq_nil_iff.mp hcs.symm).1] at hlt
          exact Nat.lt_irrefl pos hlt
        subst hnone
        exact .nil pos
    | cons c rest =>
        obtain ⟨hblank, hrest⟩ := h.tail_blank hlater
        exact .blank hblank (ih _ (by simp) hrest rfl)

end Splitting

end Lexer

/-- The lexer splits a text into these tokens just if they and some comments are a splitting of it.
So the tokens of a splitting are those that the lexer finds, and a text without one is a fault. -/
theorem tokenize_eq_ok_iff_splitting {text : String} {ts : List Token} :
    tokenize text = .ok ts ↔
      ∃ segments, Lexer.Splitting 0 text.toList segments ∧
        segments.filterMap Lexer.Segment.token? = ts := by
  rw [Lexer.tokenize_eq_ok_iff]
  constructor
  · exact Lexer.Laid.splitting
  · rintro ⟨segments, hsegments, rfl⟩
    exact hsegments.laid

end DualScope
