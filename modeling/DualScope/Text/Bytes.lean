/-!
# Measuring text in bytes

Spans count bytes, everything else in the library walks over characters. What
links the two is the number of bytes a run of characters takes when it is stored
in UTF-8, and for one decision of the reader the first of these bytes.
-/

namespace DualScope.Text

/-- The number of bytes that the characters take. -/
def bytes (cs : List Char) : Nat :=
  cs.foldr (fun c n => c.utf8Size + n) 0

@[simp] theorem bytes_nil : bytes [] = 0 := rfl

@[simp] theorem bytes_cons (c : Char) (cs : List Char) :
    bytes (c :: cs) = c.utf8Size + bytes cs := rfl

@[simp] theorem bytes_append (as bs : List Char) :
    bytes (as ++ bs) = bytes as + bytes bs := by
  induction as with
  | nil => simp
  | cons a as ih => rw [List.cons_append, bytes_cons, bytes_cons, ih, Nat.add_assoc]

/-- The first byte of a code point that is stored in UTF-8. -/
def leadByte (code : Nat) : Nat :=
  if code < 0x80 then code
  else if code < 0x800 then 0xC0 + code / 0x40
  else if code < 0x10000 then 0xE0 + code / 0x1000
  else 0xF0 + code / 0x40000

end DualScope.Text
