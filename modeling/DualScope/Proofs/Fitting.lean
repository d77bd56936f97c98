import DualScope.Proofs.Closures
import DualScope.Proofs.Faults
import DualScope.Report

/-!
# Spans that fit

A span fits into so many bytes if it does not end in front of its start, nor behind the last of
the bytes. A value fits if the spans of all its nodes do, those in the formals and in the body of
a closure included, and an error if its span does and the values that it holds.

What is read from a text fits into the text. The pairs of a list need a closer look: each of them
goes from the start of its first part to the closing bracket, and that this is no way backwards
is so because the first part ends in front of the bracket.

Everything else that makes a span keeps to the spans there are. It takes that of a part or of the
call, or the smallest that covers two, or the empty one at the start; all of these fit where the
others do.
-/

namespace DualScope

/-! ## Spans and values -/

/-- The span does not end in front of its start, nor behind `n` bytes. -/
def Span.Fits (n : Nat) (s : Span) : Prop :=
  s.start ≤ s.stop ∧ s.stop ≤ n

namespace Span

variable {n m : Nat} {s t : Span}

theorem Fits.mono (h : s.Fits n) (hnm : n ≤ m) : s.Fits m :=
  ⟨h.1, Nat.le_trans h.2 hnm⟩

theorem fits_none (n : Nat) : Span.none.Fits n :=
  ⟨Nat.le_refl 0, Nat.zero_le n⟩

theorem Fits.merge (hs : s.Fits n) (ht : t.Fits n) : (s.merge t).Fits n := by
  obtain ⟨hs, hsn⟩ := hs
  obtain ⟨ht, htn⟩ := ht
  refine ⟨?_, Nat.max_le.mpr ⟨hsn, htn⟩⟩
  exact Nat.le_trans (Nat.min_le_left _ _) (Nat.le_trans hs (Nat.le_max_left _ _))

end Span

namespace Value

/-- The span of every node of the value fits into `n` bytes. -/
def Fits (n : Nat) : Value → Prop
  | .pair _ car cdr span => span.Fits n ∧ car.Fits n ∧ cdr.Fits n
  | .lambda _ formals body _ span | .mu _ formals body span =>
    span.Fits n ∧ formals.Fits n ∧ body.Fits n
  | .symbol _ span | .number _ span | .boolean _ span | .string _ span | .nil span | .okay span
  | .primitive _ span => span.Fits n

variable {n m : Nat} {v w : Value} {vs : List Value}

theorem Fits.mono (h : v.Fits n) (hnm : n ≤ m) : v.Fits m := by
  induction v with
  | pair id car cdr span ihcar ihcdr => exact ⟨h.1.mono hnm, ihcar h.2.1, ihcdr h.2.2⟩
  | lambda id formals body home span ihf ihb => exact ⟨h.1.mono hnm, ihf h.2.1, ihb h.2.2⟩
  | mu id formals body span ihf ihb => exact ⟨h.1.mono hnm, ihf h.2.1, ihb h.2.2⟩
  | _ => exact Span.Fits.mono h hnm

theorem fits_mono (h : ∀ v ∈ vs, v.Fits n) (hnm : n ≤ m) : ∀ v ∈ vs, v.Fits m :=
  fun v hv => (h v hv).mono hnm

theorem Fits.span (h : v.Fits n) : v.span.Fits n := by
  cases v with
  | pair id car cdr span => exact h.1
  | lambda id formals body home span => exact h.1
  | mu id formals body span => exact h.1
  | _ => exact h

theorem Fits.car? (h : v.Fits n) (hw : v.car? = some w) : w.Fits n := by
  cases v with
  | pair id car cdr span =>
      cases hw
      exact h.2.1
  | _ => cases hw

theorem Fits.elements (h : v.Fits n) : ∀ w ∈ v.elements, w.Fits n := by
  induction v with
  | pair id car cdr span ihcar ihcdr =>
      intro w hw
      rw [elements_pair] at hw
      rcases List.mem_cons.mp hw with rfl | hw
      · exact h.2.1
      · exact ihcdr h.2.2 w hw
  | _ => intro w hw; cases hw

theorem Fits.list? (h : v.Fits n) (hvs : v.list? = some vs) : ∀ w ∈ vs, w.Fits n := by
  rw [Value.list?] at hvs
  split at hvs
  · cases hvs
    exact h.elements
  · cases hvs

/-! ## Lists that are made -/

theorem fits_ofList (h : ∀ v ∈ vs, v.Fits n) : (ofList vs).Fits n := by
  induction vs with
  | nil => exact Span.fits_none n
  | cons v vs ih =>
      have hv := h v List.mem_cons_self
      have hvs := ih fun w hw => h w (List.mem_cons_of_mem v hw)
      exact ⟨hv.span.merge hvs.span, hv, hvs⟩

theorem fits_ofListFrom (first : Nat) (h : ∀ v ∈ vs, v.Fits n) : (ofListFrom first vs).Fits n := by
  unfold ofListFrom
  induction vs with
  | nil => exact Span.fits_none n
  | cons v vs ih =>
      have hv := h v List.mem_cons_self
      have hvs := ih fun w hw => h w (List.mem_cons_of_mem v hw)
      exact ⟨hv.span.merge hvs.span, hv, hvs⟩

theorem fits_stamp (text level next : Nat) (h : v.Fits n) : (v.stamp text level next).1.Fits n := by
  induction v generalizing level next with
  | pair id car cdr span ihcar ihcdr =>
      simp only [stamp, atLevel_eq]
      exact ⟨h.1, ihcar _ _ h.2.1, ihcdr _ _ h.2.2⟩
  | _ => exact h

theorem fits_stampAll (text : Nat) (h : ∀ v ∈ vs, v.Fits n) : ∀ v ∈ stampAll text vs, v.Fits n :=
  forall_stampAll (fun _ next hv => fits_stamp text 0 next hv) h

end Value

/-! ## What is read -/

open Lexer (Ordered)

namespace Grammar

variable {n : Nat} {ts us : List Token} {v tail : Value} {vs : List Value}

/-- Pairs up to `stop` do not go backwards if their first parts end in front of it. -/
theorem fits_chain {stop : Nat} (hvs : ∀ v ∈ vs, v.Fits stop) (htail : tail.Fits n)
    (hstop : stop ≤ n) : (chain stop tail vs).Fits n := by
  induction vs with
  | nil => exact htail
  | cons v vs ih =>
      have hv := hvs v List.mem_cons_self
      have hspan : Span.Fits n ⟨v.span.start, stop⟩ :=
        ⟨Nat.le_trans hv.span.1 hv.span.2, hstop⟩
      exact ⟨hspan, hv.mono hstop, ih fun w hw => hvs w (List.mem_cons_of_mem v hw)⟩

theorem fits_bracketed {bracket close : Span} (hvs : ∀ v ∈ vs, v.Fits close.stop)
    (htail : tail.Fits n) (hbracket : bracket.Fits n) (hclose : close.Fits n) :
    (bracketed bracket close tail vs).Fits n := by
  have hspan := hbracket.merge hclose
  cases vs with
  | nil => exact hspan
  | cons v vs =>
      have hchain := fits_chain hvs htail hclose.2
      exact ⟨hspan, hchain.2⟩

theorem fits_quoted {mark : Span} (hv : v.Fits n) (hmark : mark.Fits n) :
    (quoted mark v).Fits n := by
  have hspan := hmark.merge hv.span
  exact ⟨hspan, hmark, hspan, hv, hspan⟩

/-- The tokens stand one behind the other in the first `n` bytes. -/
structure Bounded (n : Nat) (ts : List Token) : Prop where
  ordered : Ordered ts
  bound : ∀ t ∈ ts, t.span.stop ≤ n

theorem Bounded.of_sublist (h : Bounded n us) (hts : ts.Sublist us) : Bounded n ts :=
  ⟨h.ordered.of_sublist hts, fun t ht => h.bound t (hts.subset ht)⟩

theorem Bounded.left (h : Bounded n (ts ++ us)) : Bounded n ts :=
  h.of_sublist (List.sublist_append_left ts us)

theorem Bounded.right (h : Bounded n (ts ++ us)) : Bounded n us :=
  h.of_sublist (List.sublist_append_right ts us)

theorem Bounded.fits {t : Token} (h : Bounded n ts) (ht : t ∈ ts) : t.span.Fits n :=
  ⟨Nat.le_of_lt (h.ordered.taken t ht), h.bound t ht⟩

/-- Tokens in front of another one are in the bytes up to its end. -/
theorem Bounded.before {t : Token} (h : Bounded n (ts ++ us)) (ht : t ∈ us) :
    Bounded t.span.stop ts := by
  refine ⟨h.left.ordered, fun u hu => ?_⟩
  have hapart := (List.pairwise_append.mp h.ordered.apart).2.2 u hu t ht
  exact Nat.le_trans hapart (Nat.le_of_lt (h.right.ordered.taken t ht))

mutual

/-- A datum fits into the bytes that its tokens are in. -/
theorem Datum.fits {n : Nat} {ts : List Token} {v : Value} (h : Datum ts v) (hts : Bounded n ts) :
    v.Fits n :=
  match h with
  | .atom (t := t) hv => by
      have ht := hts.fits List.mem_cons_self
      unfold atom? at hv
      split at hv <;> cases hv <;> exact ht
  | .quote mark hv =>
      fits_quoted (hv.fits (hts.of_sublist (List.sublist_cons_self _ _)))
        (hts.fits List.mem_cons_self)
  | .list bracket close hdata => by
      have hbehind := hts.of_sublist (List.sublist_cons_self _ _)
      have hclose := hbehind.right.fits List.mem_cons_self
      exact fits_bracketed (hdata.fits (hbehind.before List.mem_cons_self)) hclose
        (hts.fits List.mem_cons_self) hclose
  | .dotted bracket dot close hdata _ htail => by
      have hbehind := hts.of_sublist (List.sublist_cons_self _ _)
      have hrest := hbehind.right.of_sublist (List.sublist_cons_self _ _)
      have hbefore := hbehind.before (t := ⟨.closeParen, close⟩) (by simp)
      exact fits_bracketed (hdata.fits hbefore) (htail.fits hrest.left)
        (hts.fits List.mem_cons_self) (hrest.right.fits List.mem_cons_self)

theorem Data.fits {n : Nat} {ts : List Token} {vs : List Value} (h : Data ts vs)
    (hts : Bounded n ts) : ∀ v ∈ vs, v.Fits n :=
  match h with
  | .nil => fun _ hv => by cases hv
  | .cons hw hws =>
      List.forall_mem_cons.mpr ⟨hw.fits hts.left, hws.fits hts.right⟩

end

end Grammar

open Grammar (Bounded)

variable {text : String} {ts : List Token}

theorem bounded_of_tokenize (h : tokenize text = .ok ts) : Bounded text.utf8ByteSize ts := by
  obtain ⟨hordered, hwithin⟩ := (Lexer.tokenize_eq_ok_iff.mp h).ordered
  refine ⟨hordered, fun t ht => ?_⟩
  have hstop := (hwithin t ht).2
  rw [Nat.zero_add, Text.bytes_toList] at hstop
  exact hstop

/-- The expressions in front of a fault, too, fit into the text. -/
theorem Reader.fits_all (h : tokenize text = .ok ts) :
    ∀ v ∈ (Reader.all ts).1, v.Fits text.utf8ByteSize := by
  obtain ⟨used, rest, rfl, hdata⟩ := Reader.all_data ts
  exact hdata.fits (bounded_of_tokenize h).left

theorem fits_readProgram {vs : List Value} (h : readProgram text = .ok vs) :
    ∀ v ∈ vs, v.Fits text.utf8ByteSize := by
  obtain ⟨ts, htokens, hdata⟩ := readProgram_eq_ok_iff.mp h
  exact hdata.fits (bounded_of_tokenize htokens)

/-! ## Errors -/

def FormFault.Fits (n : Nat) : FormFault → Prop
  | .badBindings bindings => bindings.Fits n
  | _ => True

/-- The span of the error and the values that it holds fit into `n` bytes. -/
def EvalError.Fits (n : Nat) : EvalError → Prop
  | .unbound _ span | .argumentCount _ _ span | .badElse _ span | .duplicateFormal _ span
  | .primitive _ _ span => span.Fits n
  | .badForm fault span => fault.Fits n ∧ span.Fits n
  | .badTarget v | .malformed v | .badDefinition v | .badFormal v => v.Fits n
  | .notCallable callee span => callee.Fits n ∧ span.Fits n
  | .missingExpression | .tooDeep _ => True

def ReadError.Fits (n : Nat) (e : ReadError) : Prop :=
  ∀ s ∈ e.span?, s.Fits n

def RunError.Fits (n : Nat) : RunError → Prop
  | .read e => e.Fits n
  | .eval e => e.Fits n

theorem EvalError.Fits.mono {n m : Nat} {e : EvalError} (h : e.Fits n) (hnm : n ≤ m) :
    e.Fits m := by
  cases e with
  | badForm fault span =>
      refine ⟨?_, h.2.mono hnm⟩
      cases fault with
      | badBindings bindings => exact Value.Fits.mono h.1 hnm
      | _ => trivial
  | notCallable callee span => exact ⟨h.1.mono hnm, h.2.mono hnm⟩
  | badTarget v => exact Value.Fits.mono h hnm
  | malformed v => exact Value.Fits.mono h hnm
  | badDefinition v => exact Value.Fits.mono h hnm
  | badFormal v => exact Value.Fits.mono h hnm
  | missingExpression => trivial
  | tooDeep limit => trivial
  | _ => exact Span.Fits.mono h hnm

theorem RunError.Fits.mono {n m : Nat} {e : RunError} (h : e.Fits n) (hnm : n ≤ m) :
    e.Fits m := by
  cases e with
  | read e => exact fun s hs => (h s hs).mono hnm
  | eval e => exact EvalError.Fits.mono h hnm

theorem EvalError.Fits.span? {n : Nat} {e : EvalError} (h : e.Fits n) :
    ∀ s ∈ e.span?, s.Fits n := by
  intro s hs
  cases e with
  | badForm fault span => cases hs; exact h.2
  | notCallable callee span => cases hs; exact h.2
  | badTarget v => cases hs; exact Value.Fits.span h
  | malformed v => cases hs; exact Value.Fits.span h
  | badDefinition v => cases hs; exact Value.Fits.span h
  | badFormal v => cases hs; exact Value.Fits.span h
  | missingExpression => cases hs
  | tooDeep limit => cases hs
  | _ => cases hs; exact h

/-- The fault of a text is within it. -/
theorem ReadError.fits {e : ReadError} (h : readProgram text = .error e) :
    e.Fits text.utf8ByteSize := by
  intro s hs
  obtain ⟨before, part, -, ⟨after, htext⟩, rfl⟩ := ReadError.cuts h hs
  refine ⟨Nat.le_add_right _ _, ?_⟩
  rw [← Text.bytes_toList, htext, Text.bytes_append, Text.bytes_append, ← Nat.add_assoc]
  exact Nat.le_add_right _ _

/-! ## Failures of single steps -/

/-- A result for which `P` holds, or an error that fits into `n` bytes. -/
def FitsExcept (n : Nat) (P : α → Prop) : Except EvalError α → Prop
  | .ok a => P a
  | .error e => e.Fits n

theorem FitsExcept.bind {n : Nat} {P : α → Prop} {Q : β → Prop} {x : Except EvalError α}
    {f : α → Except EvalError β} (hx : FitsExcept n P x) (hf : ∀ a, P a → FitsExcept n Q (f a)) :
    FitsExcept n Q (x >>= f) := by
  cases x with
  | ok a => exact hf a hx
  | error e => exact hx

namespace Form

/-- Both parts fit. -/
def FitParts (n : Nat) (parts : Value × Value) : Prop :=
  parts.1.Fits n ∧ parts.2.Fits n

variable {n : Nat} {v : Value}

theorem fits_checkLength (h : v.Fits n) (least : Nat) (most : Option Nat) :
    FitsExcept n (fun _ => True) (checkLength v least most) := by
  unfold checkLength
  split
  · exact h
  · split
    · exact ⟨trivial, h.span⟩
    · split
      · split
        · exact ⟨trivial, h.span⟩
        · exact trivial
      · exact trivial

theorem fits_checkFormalsAfter (h : v.Fits n) (seen : List String) :
    FitsExcept n (fun _ => True) (checkFormalsAfter seen v) := by
  induction v generalizing seen with
  | nil span => trivial
  | pair id car cdr span _ ih =>
      obtain ⟨-, hcar, hcdr⟩ := h
      cases car with
      | symbol name nspan =>
          rw [checkFormalsAfter]
          split
          · exact hcar
          · exact ih hcdr (name :: seen)
      | _ => exact hcar
  | _ => exact h

theorem fits_checkFormals (h : v.Fits n) : FitsExcept n (fun _ => True) (checkFormals v) :=
  fits_checkFormalsAfter h []

theorem fits_uncons (h : v.Fits n) :
    FitsExcept n (FitParts n) (uncons v) := by
  cases v with
  | pair id car cdr span => exact h.2
  | _ => exact h

theorem fits_bodyExpression (h : v.Fits n) : (bodyExpression v).Fits n := by
  unfold bodyExpression
  split
  · exact h.2.1
  · exact ⟨h.span, h.span, h⟩

theorem fits_procedureParts (h : v.Fits n) :
    FitsExcept n (FitParts n) (procedureParts v) := by
  refine (fits_checkLength h 2 none).bind fun _ _ => ?_
  refine (fits_uncons h).bind fun parts hparts => ?_
  refine (fits_checkFormals hparts.1).bind fun _ _ => ?_
  exact ⟨hparts.1, fits_bodyExpression hparts.2⟩

end Form

/-! ## Bindings -/

section

variable {n : Nat}

/-- The values of the bindings fit. -/
def FitBindings (n : Nat) (bs : List (String × Value)) : Prop :=
  ∀ b ∈ bs, b.2.Fits n

theorem fitBindings_nil : FitBindings n [] :=
  fun _ hb => by cases hb

theorem FitBindings.mono {m : Nat} {bs : List (String × Value)} (h : FitBindings n bs)
    (hnm : n ≤ m) : FitBindings m bs :=
  fun b hb => (h b hb).mono hnm

theorem FitBindings.insert {bs : List (String × Value)} (h : FitBindings n bs) (name : String)
    {v : Value} (hv : v.Fits n) : FitBindings n (Frame.insert name v bs) :=
  Frame.forall_insert name hv h

theorem fits_matchFormals {formals args : Value} {made : List (String × Value)}
    (hformals : formals.Fits n) (hargs : args.Fits n) (hmade : FitBindings n made) :
    FitsExcept n (fun bs => ∀ bs' ∈ bs, FitBindings n bs') (matchFormals made formals args) := by
  fun_induction matchFormals made formals args with
  | case1 =>
      rintro bs ⟨⟩
      exact hmade
  | case2 made id name nspan formals span id' v args span' ih =>
      exact ih hformals.2.2 hargs.2.2 (hmade.insert name hargs.2.1)
  | case3 => exact hformals.2.1
  | case4 =>
      rintro bs ⟨⟩

theorem fits_callBindings {formals args : Value} {span : Span} (hformals : formals.Fits n)
    (hargs : args.Fits n) (hspan : span.Fits n) :
    FitsExcept n (FitBindings n) (callBindings formals args span) := by
  have hmatch := fits_matchFormals hformals hargs fitBindings_nil
  unfold callBindings
  generalize matchFormals [] formals args = x at hmatch ⊢
  match x with
  | .error e => exact hmatch
  | .ok (some bs) => exact hmatch bs rfl
  | .ok none => exact hspan

end

/-! ## Reports -/

/-- The range of a report is within the text, whatever text the span of the error is from. -/
theorem Report.fits_rangeIn {n : Nat} {span : Option Span} (h : ∀ s ∈ span, s.Fits n)
    (text : String) : (rangeIn text span).Fits text.utf8ByteSize := by
  have hend : Span.Fits text.utf8ByteSize ⟨text.utf8ByteSize, text.utf8ByteSize⟩ :=
    ⟨Nat.le_refl _, Nat.le_refl _⟩
  cases span with
  | none => exact hend
  | some s =>
      unfold rangeIn
      dsimp only
      split
      · next hstop => exact ⟨(h s rfl).1, hstop⟩
      · exact hend

theorem Report.fits_eval {n : Nat} {e : EvalError} (h : e.Fits n) (text : String) :
    (Report.of text (.eval e)).range.Fits text.utf8ByteSize :=
  fits_rangeIn h.span? text

/-- Nothing moves the range of a fault of the reader, but the fault is within its text. -/
theorem Report.fits_read {e : ReadError} (h : e.Fits text.utf8ByteSize) :
    (Report.of text (.read e)).range.Fits text.utf8ByteSize := by
  unfold Report.of
  dsimp only
  split
  · next s hs => exact h s hs
  · exact fits_rangeIn (n := 0) (fun _ h => by cases h) text

end DualScope
