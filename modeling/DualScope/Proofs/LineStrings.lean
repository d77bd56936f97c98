import DualScope.Proofs.Brackets

/-!
# The strings of a line

A string of a line begins with a double quote and ends with the next one that is not escaped.
A scan that goes along the line from left to right knows of the string it is in only how it
began and whether the last character was a backslash that escapes the next one. `Pending` says
so of the characters up to there; it is kept from one character to the next, and a quote
turns it into `Closed`.
-/

namespace DualScope

namespace Text

/-- The character stands at that byte of the line. -/
def At (line : List Char) (offset : Nat) (c : Char) : Prop :=
  ∃ front rest, line = front ++ c :: rest ∧ bytes front = offset

theorem At.append {line : List Char} {offset : Nat} {c : Char} (h : At line offset c)
    (more : List Char) : At (line ++ more) offset c := by
  obtain ⟨front, rest, rfl, hbytes⟩ := h
  exact ⟨front, rest ++ more, by simp, hbytes⟩

theorem at_last (line : List Char) (c : Char) : At (line ++ [c]) (bytes line) c :=
  ⟨line, [], rfl, rfl⟩

theorem At.lt {line : List Char} {offset : Nat} {c : Char} (h : At line offset c) :
    offset < bytes line := by
  obtain ⟨front, rest, rfl, rfl⟩ := h
  have hc := c.utf8Size_pos
  rw [bytes_append, bytes_cons]
  omega

/-- What stands on a line with one more character at its end. -/
theorem at_concat {line : List Char} {c d : Char} {offset : Nat} :
    At (line ++ [c]) offset d ↔ At line offset d ∨ offset = bytes line ∧ d = c := by
  constructor
  · rintro ⟨front, rest, hline, rfl⟩
    rcases List.eq_nil_or_concat rest with rfl | ⟨rest, last, rfl⟩
    · obtain ⟨rfl, hd⟩ := List.append_inj' hline rfl
      exact .inr ⟨rfl, (List.cons.inj hd).1.symm⟩
    · rw [List.concat_eq_append, ← List.cons_append, ← List.append_assoc] at hline
      exact .inl ⟨front, rest, (List.append_inj' hline rfl).1, rfl⟩
  · rintro (h | ⟨rfl, rfl⟩)
    · exact h.append [c]
    · exact at_last line d

theorem at_concat_of_lt {line : List Char} {c d : Char} {offset : Nat}
    (h : offset < bytes line) : At (line ++ [c]) offset d ↔ At line offset d := by
  rw [at_concat, or_iff_left fun hlast => Nat.ne_of_lt h hlast.1]

/-- A character that stands in the middle of a line is one of those that are there. -/
theorem At.mem_of_within {front mid rest : List Char} {c : Char} {offset : Nat}
    (h : At (front ++ (mid ++ rest)) offset c) (hfront : bytes front ≤ offset)
    (hmid : offset < bytes front + bytes mid) : c ∈ mid := by
  obtain ⟨before, after, hline, rfl⟩ := h
  rcases List.append_eq_append_iff.mp hline with ⟨as, rfl, hmore⟩ | ⟨as, rfl, hmore⟩
  · rw [bytes_append] at hmid
    rcases List.append_eq_append_iff.mp hmore with ⟨bs, rfl, -⟩ | ⟨bs, rfl, hbs⟩
    · rw [bytes_append] at hmid
      omega
    · cases bs with
      | nil =>
          rw [List.append_nil] at hmid
          omega
      | cons b bs =>
          cases hbs
          simp
  · rw [bytes_append] at hfront hmid
    obtain rfl : as = [] := eq_nil_of_bytes (by omega)
    cases mid with
    | nil => exact absurd hmid (by simp)
    | cons d mid =>
        cases hmore
        exact List.mem_cons_self

/-- The characters with the bytes at which they stand, the first of them at byte `i`. -/
def placed (i : Nat) : List Char → List (Nat × Char)
  | [] => []
  | c :: cs => (i, c) :: placed (i + c.utf8Size) cs

theorem placed_append (i : Nat) (as bs : List Char) :
    placed i (as ++ bs) = placed i as ++ placed (i + bytes as) bs := by
  induction as generalizing i with
  | nil => rfl
  | cons a as ih => rw [List.cons_append, placed, placed, ih, bytes_cons, Nat.add_assoc]; rfl

theorem mem_placed {line : List Char} {offset : Nat} {c : Char} :
    (offset, c) ∈ placed 0 line ↔ At line offset c := by
  constructor
  · suffices hall : ∀ i, (offset, c) ∈ placed i line → ∃ front rest,
        line = front ++ c :: rest ∧ i + bytes front = offset by
      intro h
      obtain ⟨front, rest, hline, hbytes⟩ := hall 0 h
      exact ⟨front, rest, hline, (Nat.zero_add _).symm.trans hbytes⟩
    induction line with
    | nil => exact fun i h => nomatch h
    | cons d line ih =>
        intro i h
        rcases List.mem_cons.mp h with heq | h
        · cases heq
          exact ⟨[], line, rfl, rfl⟩
        · obtain ⟨front, rest, rfl, hbytes⟩ := ih _ h
          exact ⟨d :: front, rest, rfl, by rw [bytes_cons, ← Nat.add_assoc, hbytes]⟩
  · rintro ⟨front, rest, rfl, rfl⟩
    rw [placed_append, placed, Nat.zero_add]
    exact List.mem_append_right _ List.mem_cons_self

instance (line : List Char) (offset : Nat) (c : Char) : Decidable (At line offset c) :=
  decidable_of_iff _ mem_placed

/-- The characters before a byte of a text are determined. -/
theorem front_unique {front front' rest rest' : List Char}
    (h : front ++ rest = front' ++ rest') (hbytes : bytes front = bytes front') :
    front = front' := by
  rcases List.append_eq_append_iff.mp h with ⟨mid, rfl, -⟩ | ⟨mid, rfl, -⟩
  all_goals
    rw [bytes_append] at hbytes
    have hmid : mid = [] := eq_nil_of_bytes (by omega)
    rw [hmid, List.append_nil]

end Text

namespace Prompt.Brackets

open Text (At)

/-! ## Strings of a line -/

/-- Behind the opening quote of a string, every further quote is escaped, and the characters do
not end in the middle of an escape. -/
inductive Escaped : List Char → Prop
  | nil : Escaped []
  | plain {c : Char} {cs : List Char} : c ≠ '"' → c ≠ '\\' → Escaped cs → Escaped (c :: cs)
  | escape {c : Char} {cs : List Char} : Escaped cs → Escaped ('\\' :: c :: cs)

theorem Escaped.append {as bs : List Char} (h : Escaped as) (h' : Escaped bs) :
    Escaped (as ++ bs) := by
  induction h with
  | nil => exact h'
  | plain hquote hbackslash _ ih => exact .plain hquote hbackslash ih
  | escape _ ih => exact .escape ih

/-- Behind characters like these, a quote is not escaped. -/
theorem Escaped.ne_append_quote {as cs : List Char} (h : Escaped as) (h' : Escaped cs)
    (bs : List Char) : cs ≠ as ++ '"' :: bs := by
  induction h generalizing cs with
  | nil =>
      rintro rfl
      cases h' with
      | plain hquote _ _ => exact hquote rfl
  | plain _ hbackslash _ ih =>
      intro heq
      cases h' with
      | nil => cases heq
      | plain _ _ h' => exact ih h' (List.cons.inj heq).2
      | escape _ => exact hbackslash (List.cons.inj heq).1.symm
  | @escape c cs _ ih =>
      intro heq
      cases h' with
      | nil => cases heq
      | plain _ hbackslash _ => exact hbackslash (List.cons.inj heq).1
      | escape h' => exact ih h' (List.cons.inj (List.cons.inj heq).2).2

/-- The span is that of a string which a quote closes, from the one quote to the other. -/
def Closed (line : List Char) (s : Span) : Prop :=
  ∃ front inner rest, line = front ++ ('"' :: inner ++ ['"']) ++ rest ∧ Escaped inner ∧
    s = ⟨Text.bytes front, Text.bytes (front ++ ('"' :: inner ++ ['"']))⟩

/-- A string begins at the byte and is not closed at the end of the line; there may be a
backslash last that has nothing to escape yet. -/
def Pending (line : List Char) (start : Nat) (escaped : Bool) : Prop :=
  ∃ front inner, line = front ++ '"' :: (inner ++ if escaped then ['\\'] else []) ∧
    Escaped inner ∧ Text.bytes front = start

namespace Closed

variable {line : List Char} {s : Span}

theorem append (h : Closed line s) (more : List Char) : Closed (line ++ more) s := by
  obtain ⟨front, inner, rest, rfl, hinner, hs⟩ := h
  exact ⟨front, inner, rest ++ more, by simp, hinner, hs⟩

theorem start_lt_stop (h : Closed line s) : s.start < s.stop := by
  obtain ⟨front, inner, rest, rfl, -, rfl⟩ := h
  have hquote := Char.utf8Size_pos '"'
  simp only [Text.bytes_append, Text.bytes_cons, List.cons_append]
  omega

theorem stop_le (h : Closed line s) : s.stop ≤ Text.bytes line := by
  obtain ⟨front, inner, rest, rfl, -, rfl⟩ := h
  rw [Text.bytes_append _ rest]
  exact Nat.le_add_right _ _

theorem opens (h : Closed line s) : At line s.start '"' := by
  obtain ⟨front, inner, rest, rfl, -, rfl⟩ := h
  exact ⟨front, inner ++ ['"'] ++ rest, by simp, rfl⟩

theorem closes (h : Closed line s) : ∃ last, s.stop = last + 1 ∧ At line last '"' := by
  obtain ⟨front, inner, rest, rfl, -, rfl⟩ := h
  refine ⟨Text.bytes (front ++ '"' :: inner), ?_, front ++ '"' :: inner, rest, by simp, rfl⟩
  rw [← List.append_assoc, Text.bytes_append]
  rfl

end Closed

namespace Pending

variable {line : List Char} {start : Nat}

theorem opens {escaped : Bool} (h : Pending line start escaped) : At line start '"' := by
  obtain ⟨front, inner, rfl, -, hstart⟩ := h
  exact ⟨front, _, rfl, hstart⟩

theorem start_lt {escaped : Bool} (h : Pending line start escaped) : start < Text.bytes line := by
  obtain ⟨front, inner, rfl, -, rfl⟩ := h
  have hquote := Char.utf8Size_pos '"'
  rw [Text.bytes_append, Text.bytes_cons]
  omega

theorem begins (line : List Char) : Pending (line ++ ['"']) (Text.bytes line) false :=
  ⟨line, [], rfl, .nil, rfl⟩

theorem plain {c : Char} (h : Pending line start false) (hquote : c ≠ '"')
    (hbackslash : c ≠ '\\') : Pending (line ++ [c]) start false := by
  obtain ⟨front, inner, rfl, hinner, hstart⟩ := h
  exact ⟨front, inner ++ [c], by simp, hinner.append (.plain hquote hbackslash .nil), hstart⟩

theorem escapes (h : Pending line start false) : Pending (line ++ ['\\']) start true := by
  obtain ⟨front, inner, rfl, hinner, hstart⟩ := h
  exact ⟨front, inner, by simp, hinner, hstart⟩

theorem escaped (h : Pending line start true) (c : Char) : Pending (line ++ [c]) start false := by
  obtain ⟨front, inner, rfl, hinner, hstart⟩ := h
  exact ⟨front, inner ++ ['\\', c], by simp, hinner.append (.escape .nil), hstart⟩

theorem close (h : Pending line start false) :
    Closed (line ++ ['"']) ⟨start, Text.bytes line + 1⟩ := by
  obtain ⟨front, inner, rfl, hinner, rfl⟩ := h
  refine ⟨front, inner, [], by simp, hinner, ?_⟩
  simp only [Text.bytes_append, List.cons_append, Text.bytes_cons, Text.bytes_nil]
  congr 1

/-- A string that is not closed at the end of the line is not closed before it either. -/
theorem not_closed {escaped : Bool} (h : Pending line start escaped) (stop : Nat) :
    ¬ Closed line ⟨start, stop⟩ := by
  obtain ⟨front, inner, hline, hinner, hstart⟩ := h
  rintro ⟨front', inner', rest, hline', hinner', hspan⟩
  have heq := hline.symm.trans hline'
  rw [List.append_assoc] at heq
  obtain rfl := Text.front_unique heq (hstart.trans (Span.mk.inj hspan).1)
  have hbody : inner ++ (if escaped then ['\\'] else []) = inner' ++ '"' :: rest := by
    simpa using heq
  cases escaped with
  | false =>
      rw [if_neg Bool.false_ne_true, List.append_nil] at hbody
      exact hinner'.ne_append_quote hinner rest hbody
  | true =>
      -- The last backslash is no quote, so that the quote is before it.
      rcases List.eq_nil_or_concat rest with rfl | ⟨rest, last, rfl⟩
      · simp at hbody
      · rw [if_pos rfl, List.concat_eq_append, ← List.cons_append, ← List.append_assoc] at hbody
        exact hinner'.ne_append_quote hinner rest (List.append_inj' hbody rfl).1

end Pending

end Prompt.Brackets

end DualScope
