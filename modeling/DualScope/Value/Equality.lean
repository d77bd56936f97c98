import DualScope.Value

/-!
# When values are equal

Two questions can be asked of two values. Whether they are *equal* is a matter of
their contents: pairs are equal when their parts are, numbers when they compare
equal, primitives when they have the same name, and closures only to themselves.
Spans have no say in it, nor have the identities of pairs. Whether they are the
*same* differs for pairs alone, which are the same when they have one identity.

Values can be nested deeper than any stack, so the comparison keeps the pairs of
values that are still to be compared in a list.
-/

namespace DualScope.Value

/-- Equality of values of which not both are pairs. -/
def equalAtom : Value → Value → Bool
  | .symbol a _, .symbol b _ => a == b
  | .number x _, .number y _ => x == y
  | .boolean a _, .boolean b _ => a == b
  | .string a _, .string b _ => a == b
  | .nil _, .nil _ => true
  | .okay _, .okay _ => true
  | .primitive p _, .primitive q _ => p == q
  | .lambda i _ _ _ _, .lambda j _ _ _ _ => i == j
  | .mu i _ _ _, .mu j _ _ _ => i == j
  | _, _ => false

/-- Whether every listed value equals its partner. -/
def allEqual : List (Value × Value) → Bool
  | [] => true
  | (.pair _ a b _, .pair _ c d _) :: rest => allEqual ((a, c) :: (b, d) :: rest)
  | (v, w) :: rest => equalAtom v w && allEqual rest
termination_by vs => sizes (vs.map Prod.fst)
decreasing_by
  · simp only [List.map_cons, sizes_cons, size]
    omega
  · have := size_pos v
    simp only [List.map_cons, sizes_cons]
    omega

/-- Equality by contents. -/
def equal (v w : Value) : Bool :=
  allEqual [(v, w)]

/-- Sameness: pairs by identity, all else by contents. -/
def same : Value → Value → Bool
  | .pair i _ _ _, .pair j _ _ _ => i == j
  | v, w => equal v w

theorem allEqual_cons (v w : Value) (rest : List (Value × Value)) :
    allEqual ((v, w) :: rest) = (equal v w && allEqual rest) := by
  induction v generalizing w rest with
  | pair i a b s iha ihb =>
    cases w with
    | pair j c d t =>
      have hpair (rest : List (Value × Value)) :
          allEqual ((.pair i a b s, .pair j c d t) :: rest) =
            (equal a c && (equal b d && allEqual rest)) := by
        rw [allEqual, iha, ihb]
      rw [hpair, show equal (.pair i a b s) (.pair j c d t) = _ from hpair []]
      simp [allEqual, Bool.and_assoc]
    | _ => simp [equal, allEqual]
  | _ => simp [equal, allEqual]

theorem equal_of_equalAtom {v w : Value} (h : equalAtom v w = true) : equal v w = true := by
  cases v with
  | pair => cases h
  | _ => simpa [equal, allEqual] using h

@[simp] theorem equal_pair (i j : Identity) (a b c d : Value) (s t : Span) :
    equal (.pair i a b s) (.pair j c d t) = (equal a c && equal b d) := by
  rw [equal, allEqual, allEqual_cons]
  rfl

end DualScope.Value
