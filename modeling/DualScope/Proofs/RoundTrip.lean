import DualScope.Proofs.Grammar
import DualScope.Proofs.Lexing
import DualScope.Value.Equality
import Mathlib

/-!
# Written data is read back

Data is written one value a line, and the reader takes the lines back: as many values as
were written, in order, each equal to its original. Spans and the identities of pairs are
not written and so are not those of the original; equality has no regard for either.

The argument is one induction over the value. What stands in a list is written in front
of a blank or a bracket and what stands alone in front of a line feed, so a value is
followed by a character with which no run goes on: `ReadsAs` says that in front of such
characters the text becomes the tokens of a datum. A chain of pairs is written as the
rest of a list whose bracket was opened long before, and `RestReadsAs` says the same of
it for the tokens behind an element of a list. The tokens then are a derivation of the
grammar, and derivations are what the reader accepts.

Of numbers it is assumed that reading the digits that are written yields the number
again. That they are digits in the first place is not.
-/

namespace DualScope

namespace Grammar

/-! ## Lists from the second element on -/

/-- The tokens behind an element of a list up to the bracket that closes it, and the tree
of the rest of the list. -/
inductive Rest (close : Span) : List Token → Value → Prop
  | close : Rest close [⟨.closeParen, close⟩] (.nil close)
  | dot (dot : Span) {ts : List Token} {tail : Value} :
    Datum ts tail → Rest close (⟨.dot, dot⟩ :: (ts ++ [⟨.closeParen, close⟩])) tail
  | cons {ts us : List Token} {v tail : Value} :
    Datum ts v → Rest close us tail →
      Rest close (ts ++ us) (.pair .anonymous v tail ⟨v.span.start, close.stop⟩)

theorem Rest.exists_data {close : Span} {us : List Token} {w : Value} (h : Rest close us w) :
    ∃ ts vs tail, Data ts vs ∧ w = chain close.stop tail vs ∧
      (us = ts ++ [⟨.closeParen, close⟩] ∧ tail = .nil close ∨
        ∃ dot ws, us = ts ++ ⟨.dot, dot⟩ :: (ws ++ [⟨.closeParen, close⟩]) ∧ Datum ws tail) := by
  induction h with
  | close => exact ⟨[], [], .nil close, .nil, rfl, .inl ⟨rfl, rfl⟩⟩
  | @dot dot ts tail htail => exact ⟨[], [], tail, .nil, rfl, .inr ⟨dot, ts, rfl, htail⟩⟩
  | @cons ts _ v _ hv _ ih =>
      obtain ⟨ds, vs, tail, hdata, rfl, hend⟩ := ih
      refine ⟨ts ++ ds, v :: vs, tail, .cons hv hdata, rfl, ?_⟩
      obtain ⟨rfl, rfl⟩ | ⟨dot, ws, rfl, htail⟩ := hend
      · exact .inl ⟨by rw [List.append_assoc], rfl⟩
      · exact .inr ⟨dot, ws, by rw [List.append_assoc], htail⟩

/-- A list is its first element and the rest. -/
theorem Datum.ofRest (bracket : Span) {close : Span} {ts us : List Token} {v w : Value}
    (hv : Datum ts v) (h : Rest close us w) :
    Datum (⟨.openParen, bracket⟩ :: (ts ++ us)) (.pair .anonymous v w (bracket.merge close)) := by
  obtain ⟨ds, vs, tail, hdata, rfl, ⟨rfl, rfl⟩ | ⟨dot, ws, rfl, htail⟩⟩ := h.exists_data
  · have hlist := Datum.list bracket close (.cons hv hdata)
    rw [List.append_assoc] at hlist
    exact hlist
  · have hdotted := Datum.dotted bracket dot close (.cons hv hdata) (List.cons_ne_nil v vs) htail
    rw [List.append_assoc] at hdotted
    exact hdotted

end Grammar

open Grammar (Datum Data Rest)
open Lexer (Spells Delimited)

/-! ## What is written -/

/-- Data that can be written: the name of a symbol is one token as a whole, a number has
digits, and nothing is a procedure or the value of a form that has none. -/
def Value.IsData : Value → Prop
  | .symbol name _ => ∃ span, tokenize name = .ok [⟨.symbol name, span⟩]
  | .number x _ => Number.IsFinite x
  | .boolean .. | .string .. | .nil .. => True
  | .pair _ car cdr _ => car.IsData ∧ cdr.IsData
  | .okay .. | .primitive .. | .lambda .. | .mu .. => False

/-- The numbers in data. -/
def Value.numbers : Value → List Float
  | .number x _ => [x]
  | .pair _ car cdr _ => car.numbers ++ cdr.numbers
  | _ => []

/-! ## From characters to trees -/

/-- Wherever the characters stand in front of a delimiter, they are read as a value equal
to `v`. -/
def ReadsAs (cs : List Char) (v : Value) : Prop :=
  ∀ pos rest, Delimited rest → ∃ ts w, Spells cs pos ts rest ∧ Datum ts w ∧ w.equal v = true

/-- Wherever the characters stand behind an element of a list, they are read as a rest of
the list that is equal to `v`. -/
def RestReadsAs (cs : List Char) (v : Value) : Prop :=
  ∀ pos rest, ∃ close ts w, Spells cs pos ts rest ∧ Rest close ts w ∧ w.equal v = true

theorem delimited_restSpelling (v : Value) (rest : List Char) :
    Delimited (v.restSpelling ++ rest) := by
  cases v with
  | nil => exact Lexer.delimited_cons (.inr (.inr rfl)) _
  | _ => exact Lexer.delimited_cons (.inl rfl) _

theorem readsAs_atom {cs : List Char} {v : Value}
    (h : ∀ pos rest, Delimited rest → ∃ t w, Spells cs pos [t] rest ∧ Grammar.atom? t = some w ∧
      w.equalAtom v = true) : ReadsAs cs v := by
  intro pos rest hrest
  obtain ⟨t, w, ht, hw, heq⟩ := h pos rest hrest
  exact ⟨[t], w, ht, .atom hw, Value.equal_of_equalAtom heq⟩

theorem readsAs_symbol {name : String} {span : Span} (span' : Span)
    (h : tokenize name = .ok [⟨.symbol name, span⟩]) :
    ReadsAs (Value.symbol name span').spelling (.symbol name span') :=
  readsAs_atom fun pos _ hrest =>
    ⟨_, _, Lexer.spells_symbol h hrest pos, rfl, by simp [Value.equalAtom]⟩

theorem readsAs_number {x : Float} (span : Span) (hfinite : Number.IsFinite x)
    (hback : Number.ReadsBack x) :
    ReadsAs (Value.number x span).spelling (.number x span) := by
  refine readsAs_atom fun pos rest hrest => ?_
  obtain ⟨n, hn, hspells⟩ := Lexer.spells_number hfinite hrest pos
  have hspelling : (Value.number x span).spelling = Number.text x := String.toList_ofList
  rw [hspelling]
  exact ⟨_, _, hspells, rfl, hback n hn⟩

theorem readsAs_boolean (b : Bool) (span : Span) :
    ReadsAs (Value.boolean b span).spelling (.boolean b span) :=
  readsAs_atom fun pos _ hrest =>
    ⟨_, _, Lexer.spells_truth b hrest pos, rfl, by simp [Value.equalAtom]⟩

theorem readsAs_string (s : String) (span : Span) :
    ReadsAs (Value.string s span).spelling (.string s span) := by
  refine readsAs_atom fun pos rest _ => ?_
  have hspelling : (Value.string s span).spelling = Text.quoted s.toList := String.toList_ofList
  rw [hspelling]
  exact ⟨_, _, Lexer.spells_quoted s.toList rest pos, rfl, by simp [Value.equalAtom]⟩

/-- The empty list is no token of its own but a pair of brackets. -/
theorem readsAs_nil (span : Span) : ReadsAs (Value.nil span).spelling (.nil span) := by
  intro pos rest _
  have hopen := Lexer.spells_openParen pos ([')'] ++ rest)
  have hclose := Lexer.spells_closeParen (pos + Text.bytes ['(']) rest
  rw [Value.spelling_nil]
  exact ⟨_, _, hopen.append hclose, .list _ _ .nil, Value.equal_of_equalAtom rfl⟩

theorem readsAs_pair {car cdr : Value} (id : Identity) (span : Span)
    (hcar : ReadsAs car.spelling car) (hcdr : RestReadsAs cdr.restSpelling cdr) :
    ReadsAs (Value.pair id car cdr span).spelling (.pair id car cdr span) := by
  intro pos rest hrest
  have hopen := Lexer.spells_openParen pos (car.spelling ++ cdr.restSpelling ++ rest)
  obtain ⟨ts, v, hts, hv, hveq⟩ :=
    hcar (pos + Text.bytes ['(']) _ (delimited_restSpelling cdr rest)
  obtain ⟨close, us, w, hus, hw, hweq⟩ :=
    hcdr (pos + Text.bytes ['('] + Text.bytes car.spelling) rest
  have hlist := Datum.ofRest ⟨pos, pos + 1⟩ hv hw
  refine ⟨_, _, hopen.append (hts.append hus), hlist, ?_⟩
  rw [Value.equal_pair, hveq, hweq]
  rfl

theorem restReadsAs_pair {car cdr : Value} (id : Identity) (span : Span)
    (hcar : ReadsAs car.spelling car) (hcdr : RestReadsAs cdr.restSpelling cdr) :
    RestReadsAs (Value.pair id car cdr span).restSpelling (.pair id car cdr span) := by
  intro pos rest
  obtain ⟨ts, v, hts, hv, hveq⟩ := hcar (pos + ' '.utf8Size) _ (delimited_restSpelling cdr rest)
  obtain ⟨close, us, w, hus, hw, hweq⟩ := hcdr (pos + ' '.utf8Size + Text.bytes car.spelling) rest
  refine ⟨close, _, _, .blank rfl (hts.append hus), .cons hv hw, ?_⟩
  rw [Value.equal_pair, hveq, hweq]
  rfl

theorem restReadsAs_nil (span : Span) : RestReadsAs (Value.nil span).restSpelling (.nil span) :=
  fun pos rest => ⟨_, _, _, Lexer.spells_closeParen pos rest, .close,
    Value.equal_of_equalAtom rfl⟩

/-- What ends a list behind a dot. -/
theorem restReadsAs_ending {v : Value} (hpair : ∀ id car cdr span, v ≠ .pair id car cdr span)
    (hnil : ∀ span, v ≠ .nil span) (hv : ReadsAs v.spelling v) :
    RestReadsAs v.restSpelling v := by
  intro pos rest
  rw [Value.restSpelling_ending hpair hnil]
  have hdot := Lexer.spells_dot (pos + ' '.utf8Size) (v.spelling ++ [')'] ++ rest)
  obtain ⟨ts, w, hts, hw, hweq⟩ := hv (pos + ' '.utf8Size + Text.bytes ['.'] + ' '.utf8Size)
    ([')'] ++ rest) (Lexer.delimited_cons (.inr (.inr rfl)) rest)
  have hclose := Lexer.spells_closeParen
    (pos + ' '.utf8Size + Text.bytes ['.'] + ' '.utf8Size + Text.bytes v.spelling) rest
  exact ⟨_, _, w, .blank rfl (hdot.append (.blank rfl (hts.append hclose))), .dot _ hw, hweq⟩

/-- Every value that can be written is read back, alone and as the rest of a list. -/
theorem reads_spelling {v : Value} (hv : v.IsData) (hback : ∀ x ∈ v.numbers, Number.ReadsBack x) :
    ReadsAs v.spelling v ∧ RestReadsAs v.restSpelling v := by
  have ending {w : Value} (hpair : ∀ id car cdr span, w ≠ .pair id car cdr span)
      (hnil : ∀ span, w ≠ .nil span) (hw : ReadsAs w.spelling w) :
      ReadsAs w.spelling w ∧ RestReadsAs w.restSpelling w :=
    ⟨hw, restReadsAs_ending hpair hnil hw⟩
  induction v with
  | symbol name span =>
      obtain ⟨_, htoken⟩ := hv
      exact ending nofun nofun (readsAs_symbol span htoken)
  | number x span =>
      exact ending nofun nofun (readsAs_number span hv (hback x List.mem_cons_self))
  | boolean b span => exact ending nofun nofun (readsAs_boolean b span)
  | string s span => exact ending nofun nofun (readsAs_string s span)
  | nil span => exact ⟨readsAs_nil span, restReadsAs_nil span⟩
  | pair id car cdr span ihcar ihcdr =>
      have hcar := ihcar hv.1 fun x hx => hback x (List.mem_append_left _ hx)
      have hcdr := ihcdr hv.2 fun x hx => hback x (List.mem_append_right _ hx)
      exact ⟨readsAs_pair id span hcar.1 hcdr.2, restReadsAs_pair id span hcar.1 hcdr.2⟩
  | okay | primitive | lambda | mu => exact hv.elim

/-! ## Lines of data -/

theorem reads_lines {vs : List Value} (h : ∀ v ∈ vs, ReadsAs v.spelling v) (pos : Nat) :
    ∃ ts ws, Spells (['\n'].intercalate (vs.map Value.spelling)) pos ts [] ∧ Data ts ws ∧
      List.Forall₂ (fun v w => w.equal v = true) vs ws := by
  induction vs generalizing pos with
  | nil => exact ⟨[], [], .nil pos [], .nil, .nil⟩
  | cons v vs ih =>
      have hv := h v List.mem_cons_self
      cases vs with
      | nil =>
          obtain ⟨ts, w, hts, hw, heq⟩ := hv pos [] Lexer.delimited_nil
          rw [List.map_singleton, List.intercalate_singleton]
          have hrow : Data (ts ++ []) [w] := .cons hw .nil
          rw [List.append_nil] at hrow
          exact ⟨ts, [w], hts, hrow, .cons heq .nil⟩
      | cons v' vs =>
          obtain ⟨us, ws, hus, hws, heqs⟩ := ih (fun u hu => h u (List.mem_cons_of_mem v hu))
            (pos + Text.bytes v.spelling + '\n'.utf8Size)
          obtain ⟨ts, w, hts, hw, heq⟩ := hv pos _ (Lexer.delimited_cons (.inr (.inl rfl)) _)
          rw [List.map_cons, List.map_cons, List.intercalate_cons_cons, List.append_assoc]
          exact ⟨ts ++ us, w :: ws, hts.append (.blank rfl hus), .cons hw hws, .cons heq heqs⟩

/-- The reader takes back what the printer writes. -/
theorem readProgram_text {vs : List Value} (hdata : ∀ v ∈ vs, v.IsData)
    (hback : ∀ v ∈ vs, ∀ x ∈ v.numbers, Number.ReadsBack x) :
    ∃ ws, readProgram ("\n".intercalate (vs.map Value.text)) = .ok ws ∧
      List.Forall₂ (fun v w => w.equal v = true) vs ws := by
  obtain ⟨ts, ws, hts, hws, heq⟩ :=
    reads_lines (fun v hv => (reads_spelling (hdata v hv) (hback v hv)).1) 0
  have hchars : ("\n".intercalate (vs.map Value.text)).toList =
      ['\n'].intercalate (vs.map Value.spelling) := by
    rw [String.toList_intercalate, List.map_map]
    congr 1
    exact List.map_congr_left fun v _ => v.toList_text
  have htokens : tokenize ("\n".intercalate (vs.map Value.text)) = .ok ts := by
    have hsplit := hts []
    rw [List.append_nil, ← hchars, List.append_nil, Lexer.split, List.reverse_reverse] at hsplit
    exact hsplit
  refine ⟨ws, ?_, heq⟩
  rw [readProgram, lexemes, htokens]
  exact Reader.program_eq_ok_iff.mpr hws

section

open Value

/-- `(-1.5 (#f) . 1e)`, where `1e` is a symbol, and a string in need of escapes that ends
in a backslash. -/
def writtenLines : List Value :=
  [.pair (.made 0) (.number (-1.5) .none)
      (.pair (.made 1) (.pair (.made 2) (.boolean false .none) (.nil .none) .none)
        (.symbol "1e" .none) .none) .none,
    .string "a\t\"\x00\n\\" .none]

theorem isData_writtenLines : ∀ v ∈ writtenLines, v.IsData := by
  have hnumber : Number.IsFinite (-1.5) := ⟨true, 6755399441055744, -52, by decide +kernel⟩
  have hsymbol : tokenize "1e" = .ok [⟨.symbol "1e", ⟨0, 2⟩⟩] := by cbv
  refine List.forall_mem_cons.mpr ⟨?_, List.forall_mem_singleton.mpr trivial⟩
  exact ⟨hnumber, ⟨trivial, trivial⟩, _, hsymbol⟩

theorem readProgram_text_writtenLines :
    (∀ v ∈ writtenLines, v.IsData) ∧
      (∀ v ∈ writtenLines, ∀ x ∈ v.numbers, Number.ReadsBack x) ∧
      ∃ ws, readProgram ("\n".intercalate (writtenLines.map Value.text)) = .ok ws ∧
        List.Forall₂ (fun v w => w.equal v = true) writtenLines ws := by
  have hback : ∀ v ∈ writtenLines, ∀ x ∈ v.numbers, Number.ReadsBack x := by
    unfold Number.ReadsBack
    decide +kernel
  exact ⟨isData_writtenLines, hback, readProgram_text isData_writtenLines hback⟩

end

end DualScope
