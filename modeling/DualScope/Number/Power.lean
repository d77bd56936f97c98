/-!
# Powers of two and ten

The two bases in which the magnitude of a number is looked at: the one it is stored
in and the one it is written in.
-/

namespace DualScope.Number

/-- Two to the power of `n`. -/
def twoTo (n : Nat) : Nat := Nat.pow 2 n

/-- Ten to the power of `n`. -/
def tenTo (n : Nat) : Nat := Nat.pow 10 n

end DualScope.Number
