import DualScope.Stack
import DualScope.Value

/-!
# Identities for what was read

The reader returns trees, and a session gives each of their pairs an identity when
it takes them up: the number of the text, and a number within it. A quoted list
thus is the same list each time it is evaluated.
-/

namespace DualScope.Value

/-- The value with identities of the given text for its pairs, those of the parts of
a pair before its own, and the next number that is free. -/
def stamp (text : Nat) (level : Nat) (v : Value) (next : Nat) : Value × Nat :=
  match v with
  | .pair _ car cdr span =>
    let first := atLevel level fun _ => car.stamp text (level + 1) next
    let second := atLevel level fun _ => cdr.stamp text (level + 1) first.2
    (.pair (.read text second.2) first.1 second.1 span, second.2 + 1)
  | v => (v, next)

/-- The values of one text, in order. -/
def stampAll (text : Nat) (vs : List Value) : List Value :=
  let stamped := vs.foldl
    (fun (done, next) v =>
      let s := v.stamp text 0 next
      (s.1 :: done, s.2))
    (([] : List Value), 0)
  stamped.1.reverse

end DualScope.Value
