import DualScope.Proofs.Spelling
import Mathlib.Data.List.TakeWhile

/-!
# The syntax of numbers

A number is a sign or none, digits with a point in front of them, among them or behind them, or
with no point, and an exponent or none. The reader of numerals takes a text apart from the left,
and at every place it can go on in one way only: a sign is no digit, digits end where there is no
further digit, and what can follow them, a point or the mark of an exponent, is no digit either.
So it reads the texts of this syntax, to the numeral that they spell, and no others.
-/

namespace DualScope.Number.Numeral

/-- A sign or none, and whether it is a minus. -/
inductive Sign : List Char → Bool → Prop
  | none : Sign [] false
  | plus : Sign ['+'] false
  | minus : Sign ['-'] true

/-- Digits, perhaps with a point, those in front of the point, and those behind it. -/
inductive Mantissa : List Char → List Char → List Char → Prop
  | whole {ds : List Char} : IsDigits ds → Mantissa ds ds []
  | point {ds fs : List Char} : IsDigits ds → (∀ c ∈ fs, c.isDigit = true) →
    Mantissa (ds ++ '.' :: fs) ds fs
  | fraction {fs : List Char} : IsDigits fs → Mantissa ('.' :: fs) [] fs

/-- An exponent or none, and its value. -/
inductive Exponent : List Char → Int → Prop
  | none : Exponent [] 0
  | some {mark : Char} {s ds : List Char} {negative : Bool} : mark = 'e' ∨ mark = 'E' →
    Sign s negative → IsDigits ds →
    Exponent (mark :: (s ++ ds)) (if negative then -(value 0 ds : Int) else value 0 ds)

/-- The characters are a number, and this is the numeral that they spell. -/
inductive Spelled : List Char → Numeral → Prop
  | intro {s m x ds fs : List Char} {negative : Bool} {e : Int} : Sign s negative →
    Mantissa m ds fs → Exponent x e →
    Spelled (s ++ (m ++ x)) ⟨negative, value (value 0 ds) fs, -fs.length + e⟩

variable {cs s m x ds fs rest : List Char} {negative : Bool} {e : Int} {n : Numeral}

/-! ## Signs -/

theorem sign_sound (cs : List Char) : ∃ s, Sign s (sign cs).1 ∧ cs = s ++ (sign cs).2 := by
  unfold sign
  split
  · exact ⟨['-'], .minus, rfl⟩
  · exact ⟨['+'], .plus, rfl⟩
  · exact ⟨[], .none, rfl⟩

theorem sign_append (h : Sign s negative) (hrest : ∀ c ∈ rest.head?, c ≠ '-' ∧ c ≠ '+') :
    sign (s ++ rest) = (negative, rest) := by
  cases h with
  | none =>
      rw [List.nil_append]
      unfold sign
      split
      · exact absurd rfl (hrest '-' rfl).1
      · exact absurd rfl (hrest '+' rfl).2
      · rfl
  | plus => rfl
  | minus => rfl

theorem ne_sign_of_isDigit {c : Char} (h : c.isDigit = true) : c ≠ '-' ∧ c ≠ '+' := by
  constructor
  · rintro rfl
    exact absurd h (by decide)
  · rintro rfl
    exact absurd h (by decide)

/-! ## Exponents -/

theorem exponent_sound (h : exponent? cs = some e) : Exponent cs e := by
  cases cs with
  | nil =>
      cases h
      exact .none
  | cons c cs =>
      obtain ⟨s, hs, hcs⟩ := sign_sound cs
      simp only [exponent?, Option.ite_none_right_eq_some, Option.some.injEq, Bool.and_eq_true,
        Bool.or_eq_true, decide_eq_true_eq, Bool.not_eq_eq_eq_not, Bool.not_true,
        List.isEmpty_eq_false_iff, List.all_eq_true] at h
      obtain ⟨⟨⟨hmark, hne⟩, hdigits⟩, rfl⟩ := h
      have hexponent := Exponent.some hmark hs ⟨hne, hdigits⟩
      rw [← hcs] at hexponent
      exact hexponent

theorem exponent_complete (h : Exponent cs e) : exponent? cs = some e := by
  cases h with
  | none => rfl
  | @some mark s ds negative hmark hs hds =>
      have hhead : ∀ c ∈ ds.head?, c ≠ '-' ∧ c ≠ '+' := fun c hc =>
        ne_sign_of_isDigit (hds.2 c (List.mem_of_mem_head? hc))
      have hall : ds.all Char.isDigit = true := List.all_eq_true.mpr hds.2
      simp [exponent?, sign_append hs hhead, hmark, hds.1, hall]

/-- What can stand behind the digits of a number is no digit and no point. -/
theorem Exponent.head (h : Exponent x e) : ∀ c ∈ x.head?, c.isDigit = false ∧ c ≠ '.' := by
  cases h with
  | none => exact nofun
  | some hmark _ _ =>
      rintro c ⟨⟩
      rcases hmark with rfl | rfl
      · decide
      · decide

/-! ## Digits and the point -/

theorem mantissa_sound (h : mantissa? cs = some (n, rest)) :
    ∃ s m ds fs, cs = s ++ (m ++ rest) ∧ Sign s n.negative ∧ Mantissa m ds fs ∧
      n.digits = value (value 0 ds) fs ∧ n.exponent = -fs.length := by
  obtain ⟨s, hs, hcs⟩ := sign_sound cs
  have hdigits : ∀ ds : List Char, ∀ c ∈ ds.takeWhile Char.isDigit, c.isDigit = true :=
    fun ds c hc => List.mem_takeWhile_imp hc
  have hsplit := List.takeWhile_append_dropWhile (p := Char.isDigit) (l := (sign cs).2)
  unfold mantissa? at h
  dsimp only at h
  split at h
  · next after hafter =>
    have hrest := List.takeWhile_append_dropWhile (p := Char.isDigit) (l := after)
    rw [hafter] at hsplit
    split at h
    · cases h
    · next hsome =>
      cases h
      by_cases hwhole : (sign cs).2.takeWhile Char.isDigit = []
      · have hfraction : after.takeWhile Char.isDigit ≠ [] := by
          intro hnil
          exact hsome (by simp [hwhole, hnil])
        rw [hwhole] at hsplit ⊢
        refine ⟨s, _, _, _, ?_, hs, .fraction ⟨hfraction, hdigits after⟩, rfl, rfl⟩
        rw [List.cons_append, hrest, ← List.nil_append ('.' :: after), hsplit, ← hcs]
      · refine ⟨s, _, _, _, ?_, hs, .point ⟨hwhole, hdigits _⟩ (hdigits after), rfl, rfl⟩
        rw [List.append_assoc, List.cons_append, hrest, hsplit, ← hcs]
  · split at h
    · cases h
    · next hsome =>
      cases h
      have hwhole : (sign cs).2.takeWhile Char.isDigit ≠ [] := by
        intro hnil
        exact hsome (by simp [hnil])
      refine ⟨s, _, _, [], ?_, hs, .whole ⟨hwhole, hdigits _⟩, rfl, rfl⟩
      rw [hsplit, ← hcs]

theorem Mantissa.head (h : Mantissa m ds fs) (rest : List Char) :
    ∀ c ∈ (m ++ rest).head?, c ≠ '-' ∧ c ≠ '+' := by
  intro c hc
  cases h with
  | whole hds =>
      obtain ⟨d, ds, rfl⟩ := List.exists_cons_of_ne_nil hds.1
      cases hc
      exact ne_sign_of_isDigit (hds.2 _ List.mem_cons_self)
  | point hds _ =>
      obtain ⟨d, ds, rfl⟩ := List.exists_cons_of_ne_nil hds.1
      cases hc
      exact ne_sign_of_isDigit (hds.2 _ List.mem_cons_self)
  | fraction _ =>
      cases hc
      exact ⟨by decide, by decide⟩

/-- Where neither a digit nor a point follows, all of the mantissa is found. -/
theorem mantissa_complete (hs : Sign s negative) (hm : Mantissa m ds fs)
    (hrest : ∀ c ∈ rest.head?, c.isDigit = false ∧ c ≠ '.') :
    mantissa? (s ++ (m ++ rest)) =
      some (⟨negative, value (value 0 ds) fs, -fs.length⟩, rest) := by
  have hsign : sign (s ++ (m ++ rest)) = (negative, m ++ rest) := sign_append hs (hm.head rest)
  have hstop : ∀ c ∈ rest.head?, c.isDigit = false := fun c hc => (hrest c hc).1
  have hpoint : ∀ cs, ∀ c ∈ ('.' :: cs).head?, c.isDigit = false := by
    rintro cs c ⟨⟩
    rfl
  cases hm with
  | whole hds =>
      have htake := Text.takeWhile_run hds.2 rest hstop
      have hdrop := Text.dropWhile_run hds.2 rest hstop
      unfold mantissa?
      simp only [hsign, htake, hdrop]
      split
      · exact absurd rfl (hrest '.' rfl).2
      · simp [hds.1]
  | @point ds fs hds hfs =>
      have htake := Text.takeWhile_run hds.2 ('.' :: (fs ++ rest)) (hpoint _)
      have hdrop := Text.dropWhile_run hds.2 ('.' :: (fs ++ rest)) (hpoint _)
      have htake' := Text.takeWhile_run hfs rest hstop
      have hdrop' := Text.dropWhile_run hfs rest hstop
      rw [List.append_assoc, List.cons_append] at hsign ⊢
      unfold mantissa?
      simp [hsign, htake, hdrop, htake', hdrop', hds.1]
  | fraction hfs =>
      have htake := Text.takeWhile_run hfs.2 rest hstop
      have hdrop := Text.dropWhile_run hfs.2 rest hstop
      unfold mantissa?
      rw [hsign]
      simp [htake, hdrop, hfs.1]

/-! ## Numbers -/

/-- The texts that are read as numerals are those of the syntax. -/
theorem parse?_eq_some_iff : parse? cs = some n ↔ Spelled cs n := by
  constructor
  · intro h
    unfold parse? at h
    split at h
    · next n' rest hmantissa =>
      obtain ⟨e, he, rfl⟩ := Option.map_eq_some_iff.mp h
      obtain ⟨s, m, ds, fs, rfl, hs, hm, hdigits, hexponent⟩ := mantissa_sound hmantissa
      have hspelled := Spelled.intro hs hm (exponent_sound he)
      rw [← hdigits, ← hexponent] at hspelled
      exact hspelled
    · cases h
  · rintro ⟨hs, hm, hx⟩
    rw [parse?, mantissa_complete hs hm hx.head]
    simp only [exponent_complete hx, Option.map_some]

end DualScope.Number.Numeral
