/-!
# Places in a text

A span is the range of bytes a value was read from, its end exclusive. Values
made while a program runs, and not by a call that has a place of its own, carry
the empty span at the start.
-/

namespace DualScope

/-- A range of bytes of a text; `stop` is the first byte behind it. -/
structure Span where
  start : Nat
  stop : Nat
deriving DecidableEq, Inhabited

namespace Span

/-- The span of values that were read from no text. -/
def none : Span := ⟨0, 0⟩

/-- The smallest span that covers both. -/
def merge (a b : Span) : Span :=
  ⟨min a.start b.start, max a.stop b.stop⟩

/-- The two ends as they are shown in messages. -/
def text (s : Span) : String :=
  toString s.start ++ ".." ++ toString s.stop

end Span

end DualScope
