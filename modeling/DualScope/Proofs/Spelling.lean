import DualScope.Number.Numeral
import DualScope.Value.Printer

/-!
# What written data looks like

The printer keeps what is still to be written in a list, so that no nesting is too deep
for it. What it writes is found by recursion over the value all the same: the text of a
pair is that of its first part in a bracket and then that of its second part as the rest
of the list. Only here is the printer's list looked at; everything else about written
data is said of the spelling.

A finite number is written as digits and perhaps a point with digits behind it, after a
minus sign if it is negative.
-/

namespace DualScope

namespace Text

/-! ## Runs of characters -/

variable {p : Char → Bool} {run : List Char}

theorem takeWhile_run (hrun : ∀ c ∈ run, p c = true) (rest : List Char)
    (hrest : ∀ c ∈ rest.head?, p c = false) : (run ++ rest).takeWhile p = run := by
  rw [List.takeWhile_append_of_pos hrun]
  cases rest with
  | nil => simp
  | cons c rest => simp [hrest c rfl]

theorem dropWhile_run (hrun : ∀ c ∈ run, p c = true) (rest : List Char)
    (hrest : ∀ c ∈ rest.head?, p c = false) : (run ++ rest).dropWhile p = rest := by
  rw [List.dropWhile_append_of_pos hrun]
  cases rest with
  | nil => rfl
  | cons c rest => simp [hrest c rfl]

end Text

namespace Value

/-! ## The spelling of a value -/

/-- How a text goes on as the rest of a list: a chain of pairs has no bracket of its own
there, and what ends the list stands behind a dot, unless it is the empty list. -/
def asRest (v : Value) (text : List Char) : List Char :=
  match v with
  | .pair .. => ' ' :: text.tail
  | .nil _ => [')']
  | _ => ' ' :: '.' :: ' ' :: (text ++ [')'])

/-- The characters of the text of a value. -/
def spelling : Value → List Char
  | .pair _ car cdr _ => '(' :: (car.spelling ++ cdr.asRest cdr.spelling)
  | .lambda _ formals body _ _ =>
    "(lambda ".toList ++ (formals.spelling ++ ' ' :: (body.spelling ++ [')']))
  | .mu _ formals body _ => "(mu ".toList ++ (formals.spelling ++ ' ' :: (body.spelling ++ [')']))
  | v => v.atomText.toList

/-- The characters of a value that is the rest of a list. -/
def restSpelling (v : Value) : List Char :=
  v.asRest v.spelling

theorem spelling_pair (id : Identity) (car cdr : Value) (span : Span) :
    (Value.pair id car cdr span).spelling = '(' :: (car.spelling ++ cdr.restSpelling) := rfl

theorem spelling_lambda (id : Identity) (formals body : Value) (frame : FrameId) (span : Span) :
    (Value.lambda id formals body frame span).spelling =
      "(lambda ".toList ++ (formals.spelling ++ ' ' :: (body.spelling ++ [')'])) := rfl

theorem spelling_mu (id : Identity) (formals body : Value) (span : Span) :
    (Value.mu id formals body span).spelling =
      "(mu ".toList ++ (formals.spelling ++ ' ' :: (body.spelling ++ [')'])) := rfl

theorem spelling_nil (span : Span) : (Value.nil span).spelling = ['(', ')'] :=
  show "()".toList = ['(', ')'] from rfl

theorem spelling_atom {v : Value} (hpair : ∀ id car cdr span, v ≠ .pair id car cdr span)
    (hlambda : ∀ id formals body frame span, v ≠ .lambda id formals body frame span)
    (hmu : ∀ id formals body span, v ≠ .mu id formals body span) :
    v.spelling = v.atomText.toList := by
  cases v with
  | pair id car cdr span => exact (hpair id car cdr span rfl).elim
  | lambda id formals body frame span => exact (hlambda id formals body frame span rfl).elim
  | mu id formals body span => exact (hmu id formals body span rfl).elim
  | _ => rfl

theorem restSpelling_pair (id : Identity) (car cdr : Value) (span : Span) :
    (Value.pair id car cdr span).restSpelling = ' ' :: (car.spelling ++ cdr.restSpelling) := rfl

theorem restSpelling_nil (span : Span) : (Value.nil span).restSpelling = [')'] := rfl

theorem restSpelling_ending {v : Value} (hpair : ∀ id car cdr span, v ≠ .pair id car cdr span)
    (hnil : ∀ span, v ≠ .nil span) :
    v.restSpelling = ' ' :: '.' :: ' ' :: (v.spelling ++ [')']) := by
  cases v with
  | pair id car cdr span => exact (hpair id car cdr span rfl).elim
  | nil span => exact (hnil span rfl).elim
  | _ => rfl

/-- The characters of a piece that is still to be written. -/
def Piece.spelling : Piece → List Char
  | .text s => s.toList
  | .value v => v.spelling
  | .rest v => v.restSpelling

theorem toList_write (written : String) (ps : List Piece) :
    (write written ps).toList = written.toList ++ ps.flatMap Piece.spelling := by
  fun_induction write written ps with
  | case1 written => rw [List.flatMap_nil, List.append_nil]
  | case2 written s ps ih => simp [ih, Piece.spelling]
  | case3 written id car cdr span ps ih => simp [ih, Piece.spelling, spelling_pair]
  | case4 written id formals body frame span ps ih => simp [ih, Piece.spelling, spelling_lambda]
  | case5 written id formals body span ps ih => simp [ih, Piece.spelling, spelling_mu]
  | case6 written v ps hpair hlambda hmu ih =>
    simp [ih, Piece.spelling, spelling_atom hpair hlambda hmu]
  | case7 written id car cdr span ps ih => simp [ih, Piece.spelling, restSpelling_pair]
  | case8 written span ps ih => simp [ih, Piece.spelling, restSpelling_nil]
  | case9 written v ps hpair hnil ih => simp [ih, Piece.spelling, restSpelling_ending hpair hnil]

/-- The text of a value is its spelling. -/
theorem toList_text (v : Value) : v.text.toList = v.spelling := by
  simp [text, toList_write, Piece.spelling]

end Value

namespace Number

/-! ## The text of a finite number -/

/-- At least one digit, and nothing else. -/
def IsDigits (cs : List Char) : Prop :=
  cs ≠ [] ∧ ∀ c ∈ cs, c.isDigit = true

/-- Digits, and perhaps a point with digits behind it. -/
inductive Plain : List Char → Prop
  | whole {ds : List Char} : IsDigits ds → Plain ds
  | point {ds es : List Char} : IsDigits ds → IsDigits es → Plain (ds ++ '.' :: es)

theorem isDigits_digits (n : Nat) : IsDigits (digits n) :=
  ⟨Nat.toDigits_ne_nil, fun _ hc => Nat.isDigit_of_mem_toDigits (by decide) (by decide) hc⟩

theorem IsDigits.append {cs ds : List Char} (h : IsDigits ds) (hcs : ∀ c ∈ cs, c.isDigit = true) :
    IsDigits (cs ++ ds) := by
  refine ⟨by simp [h.1], fun c hc => ?_⟩
  exact (List.mem_append.mp hc).elim (hcs c) (h.2 c)

theorem isDigits_zero : IsDigits ['0'] :=
  ⟨List.cons_ne_nil _ _, List.all_eq_true.mp rfl⟩

theorem plain_positional (d : Nat) (p : Int) : Plain (positional d p) := by
  have hd := isDigits_digits d
  have hzeros : ∀ n, ∀ c ∈ List.replicate n '0', c.isDigit = true := fun n c hc => by
    rw [List.eq_of_mem_replicate hc]
    rfl
  unfold positional
  dsimp only
  split
  · refine .whole ⟨by simp [hd.1], fun c hc => ?_⟩
    exact (List.mem_append.mp hc).elim (hd.2 c) (hzeros _ c)
  · split
    · refine .point ⟨?_, fun c hc => hd.2 c (List.mem_of_mem_take hc)⟩
        ⟨?_, fun c hc => hd.2 c (List.mem_of_mem_drop hc)⟩
      · simp only [ne_eq, List.take_eq_nil_iff, hd.1, or_false]
        omega
      · rw [Ne, List.drop_eq_nil_iff]
        omega
    · exact .point isDigits_zero (hd.append (hzeros _))

/-- The number is neither infinite nor no number at all. -/
def IsFinite (x : Float) : Prop :=
  ∃ negative m q, parts x = .finite negative m q

/-- How a finite number is written. -/
theorem IsFinite.text_eq {x : Float} (h : IsFinite x) :
    ∃ cs, Plain cs ∧ (text x = cs ∨ text x = '-' :: cs) := by
  obtain ⟨negative, m, q, h⟩ := h
  refine ⟨if m = 0 then ['0'] else positional (shortest m q).1 (shortest m q).2, ?_, ?_⟩
  · split
    · exact .whole isDigits_zero
    · exact plain_positional _ _
  · rw [text, h]
    cases negative with
    | false => exact .inl rfl
    | true => exact .inr rfl

/-! ## Plain digits as a numeral -/

theorem Plain.head {cs : List Char} (h : Plain cs) : ∃ c ds, cs = c :: ds ∧ c.isDigit = true := by
  cases h with
  | whole hd =>
      obtain ⟨c, cs, rfl⟩ := List.exists_cons_of_ne_nil hd.1
      exact ⟨c, cs, rfl, hd.2 c List.mem_cons_self⟩
  | point hd _ =>
      obtain ⟨c, cs, rfl⟩ := List.exists_cons_of_ne_nil hd.1
      exact ⟨c, _, rfl, hd.2 c List.mem_cons_self⟩

/-- Plain digits have no sign. -/
theorem sign_plain {cs : List Char} (h : Plain cs) : Numeral.sign cs = (false, cs) := by
  obtain ⟨c, ds, rfl, hc⟩ := h.head
  unfold Numeral.sign
  split
  · next heq =>
    cases heq
    exact absurd hc (by decide)
  · next heq =>
    cases heq
    exact absurd hc (by decide)
  · rfl

/-- Plain digits are a numeral, whatever sign is in front of them. -/
theorem parse?_plain {cs ds : List Char} {negative : Bool} (h : Plain ds)
    (hsign : Numeral.sign cs = (negative, ds)) : ∃ n, Numeral.parse? cs = some n := by
  suffices hmantissa : ∃ n, Numeral.mantissa? cs = some (n, []) by
    obtain ⟨n, hn⟩ := hmantissa
    exact ⟨{ n with exponent := n.exponent + 0 }, by rw [Numeral.parse?, hn]; rfl⟩
  unfold Numeral.mantissa?
  rw [hsign]
  cases h with
  | whole hd =>
      have htake := Text.takeWhile_run hd.2 [] (by simp)
      have hdrop := Text.dropWhile_run hd.2 [] (by simp)
      rw [List.append_nil] at htake hdrop
      simp [htake, hdrop, hd.1]
  | @point ds es hd he =>
      have htake := Text.takeWhile_run hd.2 ('.' :: es) (by simp)
      have hdrop := Text.dropWhile_run hd.2 ('.' :: es) (by simp)
      have htake' := Text.takeWhile_run he.2 [] (by simp)
      have hdrop' := Text.dropWhile_run he.2 [] (by simp)
      rw [List.append_nil] at htake' hdrop'
      simp [htake, hdrop, htake', hdrop', hd.1]

theorem IsFinite.parse?_text {x : Float} (h : IsFinite x) :
    ∃ n, Numeral.parse? (text x) = some n := by
  obtain ⟨cs, hcs, htext | htext⟩ := h.text_eq <;> rw [htext]
  · exact parse?_plain hcs (sign_plain hcs)
  · exact parse?_plain hcs rfl

/-- To read the text of the number gives the number again. -/
def ReadsBack (x : Float) : Prop :=
  ∀ n ∈ Numeral.parse? (text x), (n.toFloat == x) = true

end Number

end DualScope
