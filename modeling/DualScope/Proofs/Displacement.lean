import DualScope.Proofs.Grammar

/-!
# Text that is moved

With something in front of it a text is the same text, only that everything in it stands so many
bytes further on. Tokens, values and errors are shifted by shifting every span in them.

Neither the lexer nor the reader looks at places: the lexer counts them, and the reader puts
together spans of what it has read. A span that is put together of two is shifted as the two
are, so what is read from the shifted tokens is what was read before, shifted.
-/

namespace DualScope

theorem Text.bytes_ofList (cs : List Char) : (String.ofList cs).utf8ByteSize = bytes cs := by
  induction cs with
  | nil => rfl
  | cons c cs ih =>
      rw [← List.singleton_append, String.ofList_append, String.utf8ByteSize_append, ih,
        ← String.singleton_eq_ofList, String.utf8ByteSize_singleton]
      rfl

theorem Text.bytes_toList (s : String) : bytes s.toList = s.utf8ByteSize := by
  rw [← bytes_ofList, String.ofList_toList]

/-! ## Shifted places -/

/-- The place of the same characters with `n` bytes in front of the text. -/
def Span.shift (n : Nat) (s : Span) : Span :=
  ⟨s.start + n, s.stop + n⟩

theorem Span.merge_shift (n : Nat) (s t : Span) :
    (s.shift n).merge (t.shift n) = (s.merge t).shift n := by
  simp only [merge, shift, Nat.add_min_add_right, Nat.add_max_add_right]

namespace Value

/-- The value with every span in it shifted. -/
def shift (n : Nat) : Value → Value
  | .symbol name s => .symbol name (s.shift n)
  | .number x s => .number x (s.shift n)
  | .boolean b s => .boolean b (s.shift n)
  | .string t s => .string t (s.shift n)
  | .nil s => .nil (s.shift n)
  | .okay s => .okay (s.shift n)
  | .pair id car cdr s => .pair id (car.shift n) (cdr.shift n) (s.shift n)
  | .primitive p s => .primitive p (s.shift n)
  | .lambda id formals body home s => .lambda id (formals.shift n) (body.shift n) home (s.shift n)
  | .mu id formals body s => .mu id (formals.shift n) (body.shift n) (s.shift n)

theorem span_shift (n : Nat) (v : Value) : (v.shift n).span = v.span.shift n := by
  cases v <;> rfl

theorem withSpan_shift (n : Nat) (s : Span) (v : Value) :
    (v.shift n).withSpan (s.shift n) = (v.withSpan s).shift n := by
  cases v <;> rfl

end Value

def Token.shift (n : Nat) (t : Token) : Token :=
  ⟨t.kind, t.span.shift n⟩

def LexError.shift (n : Nat) (e : LexError) : LexError :=
  ⟨e.fault, e.span.shift n⟩

def ReadError.shift (n : Nat) : ReadError → ReadError
  | .lexical e => .lexical (e.shift n)
  | .unexpected found wanted => .unexpected (found.shift n) wanted
  | .unfinished wanted => .unfinished wanted
  | .misplacedDot span => .misplacedDot (span.shift n)

/-! ## The lexer counts places -/

namespace Lexer

/-- The tokens found before stand in front of those found here. -/
theorem split_found (found : List Token) (pos : Nat) (cs : List Char) :
    split found pos cs = (split [] pos cs).map (found.reverse ++ ·) := by
  suffices h : ∀ found', split (found' ++ found) pos cs =
      (split found' pos cs).map (found.reverse ++ ·) from h []
  intro found'
  fun_induction split found' pos cs with
  | case1 found' pos => simp [split, Except.map]
  | case2 found' pos c cs hblank ih => rw [split, if_pos hblank, ih]
  | case3 found' pos cs hblank ih => rw [split, if_neg hblank, if_pos rfl, ih]
  | case4 found' pos c cs hblank hcomment next span kind hkind ih =>
      rw [split, if_neg hblank, if_neg hcomment]
      dsimp only
      rw [hkind]
      exact ih
  | case5 found' pos c cs hblank hcomment next span fault hfault =>
      rw [split, if_neg hblank, if_neg hcomment]
      dsimp only
      rw [hfault]
      rfl

/-- With `n` bytes in front, everything is found so many bytes further on. -/
theorem split_shift (n : Nat) (found : List Token) (pos : Nat) (cs : List Char) :
    split (found.map (Token.shift n)) (pos + n) cs =
      ((split found pos cs).map (List.map (Token.shift n))).mapError (LexError.shift n) := by
  fun_induction split found pos cs with
  | case1 found pos =>
      rw [split]
      exact congrArg Except.ok List.map_reverse.symm
  | case2 found pos c cs hblank ih =>
      rw [split, if_pos hblank, Nat.add_right_comm, ih]
  | case3 found pos cs hblank ih =>
      rw [split, if_neg hblank, if_pos rfl, Nat.add_right_comm, ih]
  | case4 found pos c cs hblank hcomment next span kind hkind ih =>
      rw [split, if_neg hblank, if_neg hcomment]
      dsimp only
      rw [hkind, Nat.add_right_comm]
      exact ih
  | case5 found pos c cs hblank hcomment next span fault hfault =>
      rw [split, if_neg hblank, if_neg hcomment]
      dsimp only
      rw [hfault, Nat.add_right_comm]
      rfl

end Lexer

/-! ## The reader puts spans together -/

namespace Reader

/-- A form in the making, with every span in it shifted. -/
def Open.shift (n : Nat) : Open → Open
  | .quote mark => .quote (mark.shift n)
  | .list bracket items => .list (bracket.shift n) (items.map (Value.shift n))
  | .dotted bracket items dot =>
    .dotted (bracket.shift n) (items.map (Value.shift n)) (dot.shift n)

def Reading.shift (n : Nat) : Reading → Reading
  | .expecting forms => .expecting (forms.map (Open.shift n))
  | .closing bracket items tail forms =>
    .closing (bracket.shift n) (items.map (Value.shift n)) (tail.shift n)
      (forms.map (Open.shift n))

def Progress.shift (n : Nat) : Progress → Progress
  | .complete v => .complete (v.shift n)
  | .reading r => .reading (r.shift n)

variable (n : Nat)

theorem shift_eq_start {r : Reading} : r.shift n = start ↔ r = start := by
  cases r with
  | expecting forms => cases forms <;> simp [Reading.shift, start]
  | closing bracket items tail forms => exact ⟨(nomatch ·), (nomatch ·)⟩

theorem wanted_shift (r : Reading) : (r.shift n).wanted = r.wanted := by
  cases r with
  | closing bracket items tail forms => rfl
  | expecting forms =>
      cases forms with
      | nil => rfl
      | cons o forms => cases o <;> rfl

theorem quotation_shift (mark : Span) (v : Value) :
    quotation (mark.shift n) (v.shift n) = (quotation mark v).shift n := by
  simp only [quotation, Value.span_shift, Span.merge_shift, Value.shift]

theorem chain_shift (close : Span) (tail : Value) (items : List Value) :
    chain (close.shift n).stop (tail.shift n) (items.map (Value.shift n)) =
      (chain close.stop tail items).shift n := by
  unfold chain
  induction items generalizing tail with
  | nil => rfl
  | cons v items ih =>
      rw [List.map_cons, List.foldl_cons, List.foldl_cons, ← ih, Value.span_shift]
      rfl

theorem closeList_shift (bracket close : Span) (items : List Value) (tail : Value) :
    closeList (bracket.shift n) (items.map (Value.shift n)) (tail.shift n) (close.shift n) =
      (closeList bracket items tail close).shift n := by
  unfold closeList
  cases items with
  | nil => simp only [List.map_nil, List.isEmpty_nil, if_pos, Span.merge_shift, Value.shift]
  | cons item items =>
      rw [chain_shift, Span.merge_shift, Value.withSpan_shift]
      rfl

theorem deliver_shift (v : Value) (forms : List Open) :
    deliver (v.shift n) (forms.map (Open.shift n)) = (deliver v forms).shift n := by
  induction forms generalizing v with
  | nil => rfl
  | cons o forms ih =>
      cases o with
      | quote mark =>
          rw [List.map_cons, Open.shift, deliver, quotation_shift, ih]
          rfl
      | list bracket items => rfl
      | dotted bracket items dot => rfl

theorem feed_shift (r : Reading) (t : Token) :
    feed (r.shift n) (t.shift n) =
      ((feed r t).map (Progress.shift n)).mapError (ReadError.shift n) := by
  obtain ⟨kind, span⟩ := t
  cases r with
  | closing bracket items tail forms =>
      cases kind with
      | closeParen =>
          refine (congrArg (fun v => Except.ok (deliver v _)) (closeList_shift n ..)).trans ?_
          exact congrArg Except.ok (deliver_shift n _ forms)
      | _ => rfl
  | expecting forms =>
      cases kind with
      | closeParen =>
          cases forms with
          | nil => rfl
          | cons o forms =>
              cases o with
              | quote mark => rfl
              | list bracket items =>
                  refine (congrArg (fun v => Except.ok (deliver v _))
                    (closeList_shift n bracket span items (.nil span))).trans ?_
                  exact congrArg Except.ok (deliver_shift n _ forms)
              | dotted bracket items dot => rfl
      | dot =>
          cases forms with
          | nil => rfl
          | cons o forms =>
              cases o with
              | quote mark => rfl
              | list bracket items => cases items <;> rfl
              | dotted bracket items dot => rfl
      | openParen => simp only [Reading.shift, Token.shift, feed_openParen]; rfl
      | quote => simp only [Reading.shift, Token.shift, feed_quote]; rfl
      | symbol name =>
          simp only [Reading.shift, Token.shift, feed]
          exact congrArg Except.ok (deliver_shift n (.symbol name span) forms)
      | number x =>
          simp only [Reading.shift, Token.shift, feed]
          exact congrArg Except.ok (deliver_shift n (.number x span) forms)
      | boolean b =>
          simp only [Reading.shift, Token.shift, feed]
          exact congrArg Except.ok (deliver_shift n (.boolean b span) forms)
      | string t =>
          simp only [Reading.shift, Token.shift, feed]
          exact congrArg Except.ok (deliver_shift n (.string t span) forms)

theorem collect_shift (before : List Value) (r : Reading) (ts : List Token) :
    collect (before.map (Value.shift n)) (r.shift n) (ts.map (Token.shift n)) =
      ((collect before r ts).1.map (Value.shift n),
        (collect before r ts).2.map (ReadError.shift n)) := by
  induction ts generalizing before r with
  | nil =>
      simp only [List.map_nil, collect, shift_eq_start, wanted_shift, List.map_reverse]
      split <;> rfl
  | cons t ts ih =>
      rw [List.map_cons, collect, collect, feed_shift]
      cases feed r t with
      | error e => exact congrArg (·, _) List.map_reverse.symm
      | ok next =>
          cases next with
          | complete v => exact ih (v :: before) start
          | reading r' => exact ih before r'

/-- From shifted tokens the reader makes what it makes of the tokens, shifted. -/
theorem program_shift (ts : List Token) :
    program (ts.map (Token.shift n)) =
      ((program ts).map (List.map (Value.shift n))).mapError (ReadError.shift n) := by
  have hall : all (ts.map (Token.shift n)) =
      ((all ts).1.map (Value.shift n), (all ts).2.map (ReadError.shift n)) :=
    collect_shift n [] start ts
  rw [program, program, hall]
  obtain ⟨vs, fault⟩ := all ts
  cases fault <;> rfl

theorem finish_shift (r : Reading) (ts : List Token) :
    finish (r.shift n) (ts.map (Token.shift n)) =
      ((finish r ts).map fun read => (read.1.shift n, read.2.map (Token.shift n))).mapError
        (ReadError.shift n) := by
  induction ts generalizing r with
  | nil =>
      rw [List.map_nil, finish, finish, wanted_shift]
      rfl
  | cons t ts ih =>
      rw [List.map_cons, finish, finish, feed_shift]
      cases feed r t with
      | error e => rfl
      | ok next =>
          cases next with
          | complete v => rfl
          | reading r' => exact ih r'

theorem single_shift (ts : List Token) :
    single (ts.map (Token.shift n)) =
      ((single ts).map (Value.shift n)).mapError (ReadError.shift n) := by
  have hnext : next (ts.map (Token.shift n)) =
      ((next ts).map fun read => (read.1.shift n, read.2.map (Token.shift n))).mapError
        (ReadError.shift n) :=
    finish_shift n start ts
  rw [single, single, hnext]
  cases next ts with
  | error e => rfl
  | ok read =>
      obtain ⟨v, rest⟩ := read
      cases rest <;> rfl

end Reader

end DualScope
