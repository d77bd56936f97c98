import DualScope.Proofs.Layout

/-!
# Texts behind one another

A text can be read line by line as long as the lines are texts of their own. With a line feed
between them, a text that reads and any other are read as one after the other: what the second
one holds, or the fault that is in it, stands so many bytes further on, and that is all.

Nothing goes on over the joint. In the text in front every literal is closed and every bracket,
for it was read; what could still go on at its end is a run or a comment, and the line feed ends
both. The lexer then is where it is at the start of a text, and so is the reader.
-/

namespace DualScope

open Grammar (Data)

/-! ## The tokens -/

/-- The lexer goes over the joint as if it started there. -/
theorem tokenize_line {text : String} {ts : List Token} (h : tokenize text = .ok ts)
    (next : String) :
    tokenize (text ++ "\n" ++ next) =
      ((tokenize next).map fun us =>
        ts ++ us.map (Token.shift (text.utf8ByteSize + 1))).mapError
          (LexError.shift (text.utf8ByteSize + 1)) := by
  have hlaid := Lexer.tokenize_eq_ok_iff.mp h
  have hchars : (text ++ "\n" ++ next).toList = text.toList ++ '\n' :: next.toList := by
    rw [String.toList_append, String.toList_append, List.append_assoc]
    rfl
  have hline : Lexer.isBlank '\n' = true := rfl
  have hsize : '\n'.utf8Size = 1 := rfl
  have hshift := Lexer.split_shift (text.utf8ByteSize + 1) [] 0 next.toList
  rw [tokenize, hchars, hlaid.spells_line next.toList [], Lexer.split_blank hline,
    Lexer.split_found, Text.bytes_toList, hsize, Nat.zero_add]
  rw [List.map_nil, Nat.zero_add] at hshift
  rw [hshift, tokenize, List.append_nil, List.reverse_reverse]
  cases Lexer.split [] 0 next.toList <;> rfl

/-! ## The expressions -/

namespace Reader

theorem collect_append {ts : List Token} {vs : List Value} (h : Data ts vs) (before : List Value)
    (us : List Token) :
    collect before start (ts ++ us) = collect (vs.reverse ++ before) start us := by
  induction vs generalizing ts before with
  | nil =>
      cases h
      rfl
  | cons v vs ih =>
      cases h with
      | cons hv hvs =>
          rw [List.append_assoc, collect_eq fun _ => by simp [hv.ne_nil]]
          rw [show finish start _ = _ from next_datum hv _]
          simpa using ih hvs (v :: before)

/-- What was read before stands in front of what is read. -/
theorem collect_before (before : List Value) (r : Reading) (ts : List Token) :
    collect before r ts = (before.reverse ++ (collect [] r ts).1, (collect [] r ts).2) := by
  suffices h : ∀ before', collect (before' ++ before) r ts =
      (before.reverse ++ (collect before' r ts).1, (collect before' r ts).2) from h []
  intro before'
  induction ts generalizing before' r with
  | nil => simp [collect]
  | cons t ts ih =>
      rw [collect, collect]
      cases feed r t with
      | error e => simp
      | ok next =>
          cases next with
          | complete v => exact ih start (v :: before')
          | reading r' => exact ih r' before'

/-- The reader goes over the end of an expression as if it started there. -/
theorem program_append {ts : List Token} {vs : List Value} (h : Data ts vs) (us : List Token) :
    program (ts ++ us) = (program us).map (vs ++ ·) := by
  have hall : all (ts ++ us) = (vs ++ (all us).1, (all us).2) := by
    rw [all, collect_append h, collect_before]
    simp [all]
  rw [program, program, hall]
  obtain ⟨ws, fault⟩ := all us
  cases fault <;> rfl

end Reader

/-! ## The two texts -/

theorem lexemes_eq_ok_iff {text : String} {ts : List Token} :
    lexemes text = .ok ts ↔ tokenize text = .ok ts := by
  unfold lexemes
  cases tokenize text with
  | error e => exact ⟨(nomatch ·), (nomatch ·)⟩
  | ok us => exact ⟨fun h => by cases h; rfl, fun h => by cases h; rfl⟩

theorem lexemes_bind_eq_ok_iff {text : String} {read : List Token → Except ReadError α} {a : α} :
    lexemes text >>= read = .ok a ↔ ∃ ts, tokenize text = .ok ts ∧ read ts = .ok a := by
  constructor
  · intro h
    cases htokens : lexemes text with
    | error e =>
        rw [htokens] at h
        cases h
    | ok ts =>
        rw [htokens] at h
        exact ⟨ts, lexemes_eq_ok_iff.mp htokens, h⟩
  · rintro ⟨ts, htokens, hread⟩
    rw [lexemes_eq_ok_iff.mpr htokens]
    exact hread

/-- A text that is read is the tokens of a row of data. -/
theorem readProgram_eq_ok_iff {text : String} {vs : List Value} :
    readProgram text = .ok vs ↔ ∃ ts, tokenize text = .ok ts ∧ Data ts vs := by
  simp only [readProgram, lexemes_bind_eq_ok_iff, Reader.program_eq_ok_iff]

/-- Behind a text that is read and a line feed, another text is read as it is alone: its
expressions follow, with all their spans shifted, and a fault in it is the fault of both. -/
theorem readProgram_line {text : String} {vs : List Value} (h : readProgram text = .ok vs)
    (next : String) :
    readProgram (text ++ "\n" ++ next) =
      match readProgram next with
      | .ok ws => .ok (vs ++ ws.map (Value.shift (text.utf8ByteSize + 1)))
      | .error e => .error (e.shift (text.utf8ByteSize + 1)) := by
  obtain ⟨ts, htokens, hdata⟩ := readProgram_eq_ok_iff.mp h
  have hline := tokenize_line htokens next
  rw [readProgram, lexemes, hline, readProgram, lexemes]
  cases tokenize next with
  | error e => rfl
  | ok us =>
      refine (Reader.program_append hdata _).trans ?_
      rw [Reader.program_shift]
      show _ = match Reader.program us with
        | .ok ws => _
        | .error e => _
      cases Reader.program us <;> rfl

/-- A bracket in a comment is not open behind the line, where `x` is read, and `)` is not. -/
theorem readProgram_line_commented :
    let text := "\"é\" ; ("
    readProgram text = .ok [.string "é" ⟨0, 4⟩] ∧
      readProgram (text ++ "\n" ++ "x") = .ok [.string "é" ⟨0, 4⟩, .symbol "x" ⟨9, 10⟩] ∧
      readProgram (text ++ "\n" ++ ")") =
        .error (.unexpected ⟨.closeParen, ⟨9, 10⟩⟩ .expression) := by
  intro text
  have htext : readProgram text = .ok [.string "é" ⟨0, 4⟩] := by decide +kernel
  have hx : readProgram "x" = .ok [.symbol "x" ⟨0, 1⟩] := by decide +kernel
  have hclose : readProgram ")" = .error (.unexpected ⟨.closeParen, ⟨0, 1⟩⟩ .expression) := by
    decide +kernel
  have hsize : text.utf8ByteSize = 8 := by decide +kernel
  refine ⟨htext, ?_, ?_⟩
  · rw [readProgram_line htext "x", hx, hsize]
    rfl
  · rw [readProgram_line htext ")", hclose, hsize]
    rfl

end DualScope
