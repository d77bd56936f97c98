import DualScope.Value

/-!
# The nodes of a value
-/

namespace DualScope.Value

/-- The nodes of the listed values behind those found before, which are kept last
first. -/
def nodesAfter (found : List Value) : List Value → List Value
  | [] => found.reverse
  | .pair id car cdr span :: rest => nodesAfter (.pair id car cdr span :: found) (car :: cdr :: rest)
  | v :: rest => nodesAfter (v :: found) rest
termination_by vs => sizes vs
decreasing_by
  · simp only [sizes_cons, size]
    omega
  · have := size_pos v
    simp only [sizes_cons]
    omega

/-- The value and, if it is a pair, the nodes of its first and of its second part, in
this order. -/
def nodes (v : Value) : List Value :=
  nodesAfter [] [v]

end DualScope.Value
