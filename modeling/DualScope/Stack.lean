/-!
# Deep recursion

A recursion is as deep as the data or the program it follows, and the stack of a
thread is not. A function that may go deep says at each level how deep it is; at
every thousandth level it goes on with a thread, and so a stack, of its own. This
has no bearing on what is computed.
-/

namespace DualScope

/-- The value of `f`, at the given level of a recursion. -/
@[inline] def atLevel (level : Nat) (f : Unit → α) : α :=
  if level % 1000 = 999 then (Task.spawn f .dedicated).get else f ()

@[simp] theorem atLevel_eq (level : Nat) (f : Unit → α) : atLevel level f = f () := by
  unfold atLevel
  split <;> rfl

end DualScope
