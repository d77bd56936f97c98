import DualScope.Prompt.Highlight
import DualScope.Proofs.BracketScan

/-!
# Colours on a line

A line in its colours is the line, character by character, each of them bare or in a colour.
Which colour it is depends on what the scan found at its place. The colours are tried one after
the other, but this order does not matter: a bracket is never in a string, and one without a
partner is in no pair. So each colour can be told by what it stands for alone.

The pair that is marked is the first one in the list that has a bracket at the cursor, and pairs
are listed as they are closed.
-/

namespace DualScope

namespace Prompt

open Text (At placed mem_placed)

/-! ## The text -/

/-- How a terminal is told to show a character in the shade: with a string green, the active pair
bold and blue, a bracket without a partner red, and everything behind it as before. -/
def Shade.shown : Shade → Char → String
  | .plain, c => .singleton c
  | .string, c => "\x1b[32m" ++ .singleton c ++ "\x1b[0m"
  | .active, c => "\x1b[1;34m" ++ .singleton c ++ "\x1b[0m"
  | .unmatched, c => "\x1b[31m" ++ .singleton c ++ "\x1b[0m"

theorem Shade.paint_eq_shown (shade : Shade) (c : Char) : shade.paint c = shade.shown c := by
  cases shade <;> rfl

theorem paint_eq (shade : Nat → Shade) (painted : String) (i : Nat) (cs : List Char) :
    paint shade painted i cs =
      painted ++ String.join ((placed i cs).map fun p => (shade p.1).shown p.2) := by
  induction cs generalizing painted i with
  | nil => simp [paint, placed]
  | cons c cs ih =>
      rw [paint, ih, placed, List.map_cons, String.join_cons, String.append_assoc,
        Shade.paint_eq_shown]

namespace Brackets

/-! ## The pair at the cursor -/

/-- One of the two brackets is under the cursor or just before it. -/
def AtCursor (cursor : Nat) (p : Nat × Nat) : Prop :=
  ∃ k, (k = p.1 ∨ k = p.2) ∧ (k = cursor ∨ k + 1 = cursor)

theorem atCursor_iff {cursor : Nat} {p : Nat × Nat} :
    (atCursor cursor p.1 || atCursor cursor p.2) = true ↔ AtCursor cursor p := by
  simp only [atCursor, AtCursor, Bool.or_eq_true, decide_eq_true_eq, or_and_right, exists_or,
    exists_eq_left]

theorem active?_isSome {b : Brackets} {cursor : Nat} :
    (b.active? cursor).isSome ↔ ∃ p ∈ b.pairs, AtCursor cursor p := by
  simp only [active?, List.find?_isSome, atCursor_iff]

/-- Of the pairs at the cursor, the active one is closed first. -/
theorem active?_first {line : List Char} {cursor : Nat} {p : Nat × Nat}
    (hp : (of line).active? cursor = some p) :
    p ∈ (of line).pairs ∧ AtCursor cursor p ∧
      ∀ q ∈ (of line).pairs, AtCursor cursor q → p.2 ≤ q.2 := by
  obtain ⟨hcursor, before, behind, hpairs, hbefore⟩ := List.find?_eq_some_iff_append.mp hp
  refine ⟨hpairs ▸ by simp, atCursor_iff.mp hcursor, fun q hq hqcursor => ?_⟩
  have hsorted := (List.pairwise_reverse.mp (nested_of line).apart).imp And.left
  rw [hpairs] at hq hsorted
  rcases List.mem_append.mp hq with hq | hq
  · have hnot := hbefore q hq
    rw [atCursor_iff.mpr hqcursor] at hnot
    cases hnot
  · rcases List.mem_cons.mp hq with rfl | hq
    · exact Nat.le_refl _
    · exact Nat.le_of_lt
        (List.rel_of_pairwise_cons (List.pairwise_append.mp hsorted).2.1 hq)

/-! ## The shades -/

section

variable {b : Brackets} {active : Option (Nat × Nat)} {i : Nat}

/-- The byte is that of a bracket of the pair. -/
def Marks (active : Option (Nat × Nat)) (i : Nat) : Prop :=
  ∃ p ∈ active, i = p.1 ∨ i = p.2

/-- The shade of a byte, by what holds of it. -/
theorem shade_cases (b : Brackets) (active : Option (Nat × Nat)) (i : Nat) :
    (b.shade active i = .string ∧ b.InString i) ∨
      ¬ b.InString i ∧
        ((b.shade active i = .active ∧ Marks active i) ∨
          ¬ Marks active i ∧
            ((b.shade active i = .unmatched ∧ i ∈ b.unmatched) ∨
              (b.shade active i = .plain ∧ i ∉ b.unmatched))) := by
  have hstring : (b.strings.any fun t => t.start ≤ i && i < t.stop) = true ↔ b.InString i := by
    simp [InString]
  have hmarks : (active.any fun p => i = p.1 || i = p.2) = true ↔ Marks active i := by
    simp [Marks, Option.any_eq_true]
  unfold shade
  split
  · next h => exact .inl ⟨rfl, hstring.mp h⟩
  · next h =>
      refine .inr ⟨fun hin => h (hstring.mpr hin), ?_⟩
      split
      · next h => exact .inl ⟨rfl, hmarks.mp h⟩
      · next h =>
          refine .inr ⟨fun hm => h (hmarks.mpr hm), ?_⟩
          split
          · next h => exact .inl ⟨rfl, h⟩
          · next h => exact .inr ⟨rfl, h⟩

theorem shade_eq_string_iff : b.shade active i = .string ↔ b.InString i := by
  rcases shade_cases b active i with ⟨h, hin⟩ | ⟨hout, ⟨h, -⟩ | ⟨-, ⟨h, -⟩ | ⟨h, -⟩⟩⟩
  · exact iff_of_true h hin
  all_goals exact iff_of_false (by rw [h]; decide) hout

theorem shade_eq_active_iff (hcode : Marks active i → ¬ b.InString i) :
    b.shade active i = .active ↔ Marks active i := by
  rcases shade_cases b active i with ⟨h, hin⟩ | ⟨-, ⟨h, hm⟩ | ⟨hm, ⟨h, -⟩ | ⟨h, -⟩⟩⟩
  · exact iff_of_false (by rw [h]; decide) fun hm => hcode hm hin
  · exact iff_of_true h hm
  all_goals exact iff_of_false (by rw [h]; decide) hm

theorem shade_eq_unmatched_iff
    (hsingle : i ∈ b.unmatched → ¬ b.InString i ∧ ¬ Marks active i) :
    b.shade active i = .unmatched ↔ i ∈ b.unmatched := by
  rcases shade_cases b active i with ⟨h, hin⟩ | ⟨-, ⟨h, hm⟩ | ⟨-, ⟨h, hu⟩ | ⟨h, hu⟩⟩⟩
  · exact iff_of_false (by rw [h]; decide) fun hu => (hsingle hu).1 hin
  · exact iff_of_false (by rw [h]; decide) fun hu => (hsingle hu).2 hm
  · exact iff_of_true h hu
  · exact iff_of_false (by rw [h]; decide) hu

end

section

variable {line : List Char} {cursor i : Nat}

/-- No bracket is in a string. -/
theorem not_inString {k : Nat}
    (hk : k ∈ places (of line).pairs (of line).unmatched (of line).opened) :
    ¬ (of line).InString k := by
  rintro ⟨t, ht, hin⟩
  have hout := outside_of line hk ht
  omega

theorem mem_places_of_marks (h : Marks ((of line).active? cursor) i) :
    i ∈ places (of line).pairs (of line).unmatched (of line).opened := by
  obtain ⟨p, hp, hi⟩ := h
  exact mem_places.mpr (.inl ⟨p, (active?_first hp).1, hi⟩)

/-- A bracket without a partner is in no pair. -/
theorem not_marks_of_unmatched (h : i ∈ (of line).unmatched) :
    ¬ Marks ((of line).active? cursor) i := by
  rintro ⟨p, hp, hi⟩
  have hpair : p ∈ (of line).pairs.reverse := List.mem_reverse.mpr (active?_first hp).1
  have hout := (nested_of line).unenclosed p hpair i
    (List.mem_append_left _ (List.mem_reverse.mpr h))
  have hlt := (nested_of line).ascending p hpair
  omega

end

/-- Every colour is where it belongs. -/
structure Shaded (line : List Char) (cursor : Nat) (shade : Nat → Shade) : Prop where
  string : ∀ i, shade i = .string ↔ (of line).InString i
  active : ∃ active : Option (Nat × Nat), (∀ i, shade i = .active ↔ Marks active i) ∧
    (active.isSome ↔ ∃ p ∈ (of line).pairs, AtCursor cursor p) ∧
    ∀ p ∈ active, p ∈ (of line).pairs ∧ AtCursor cursor p ∧
      (∀ q ∈ (of line).pairs, AtCursor cursor q → p.2 ≤ q.2) ∧
      (p.1, '(') ∈ placed 0 line ∧ (p.2, ')') ∈ placed 0 line
  unmatched : ∀ i, shade i = .unmatched ↔ i ∈ (of line).unmatched
  closing : ∀ i ∈ (of line).unmatched, (i, ')') ∈ placed 0 line

end Brackets

open Brackets

/-- A line in its colours is its characters, each in the shade of its place: strings are green,
the pair at the cursor that is closed first is blue and bold, closing brackets without a partner
are red, and nothing else has a colour. -/
theorem highlight_shaded (line : List Char) (cursor : Nat) :
    ∃ shade : Nat → Shade, Shaded line cursor shade ∧
      highlight line cursor =
        String.join ((placed 0 line).map fun p => (shade p.1).shown p.2) := by
  have hmarked := marked_of line
  refine ⟨(of line).shade ((of line).active? cursor), ?_, ?_⟩
  · refine ⟨fun i => shade_eq_string_iff, ⟨(of line).active? cursor, fun i => ?_, active?_isSome,
      fun p hp => ?_⟩, fun i => ?_, fun i hi => mem_placed.mpr (hmarked.unmatched i hi)⟩
    · exact shade_eq_active_iff fun hm => not_inString (mem_places_of_marks hm)
    · obtain ⟨hpair, hcursor, hfirst⟩ := active?_first hp
      obtain ⟨hopen, hclose⟩ := hmarked.pairs p hpair
      exact ⟨hpair, hcursor, hfirst, mem_placed.mpr hopen, mem_placed.mpr hclose⟩
    · refine shade_eq_unmatched_iff fun hi => ⟨?_, not_marks_of_unmatched hi⟩
      exact not_inString (mem_places.mpr (.inr (.inl hi)))
  · rw [highlight, paint_eq, String.empty_append]

example : highlight "(a \"(\")".toList 0 =
    "\x1b[1;34m(\x1b[0ma \x1b[32m\"\x1b[0m\x1b[32m(\x1b[0m\x1b[32m\"\x1b[0m\x1b[1;34m)\x1b[0m" := by
  decide +kernel

end Prompt

end DualScope
