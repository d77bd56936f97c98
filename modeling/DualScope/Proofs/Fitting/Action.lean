import DualScope.Proofs.Fitting
import DualScope.Run

/-!
# Actions that keep spans in bounds

How far a span may go depends on what has been read: the texts that the host handed in, and the
files that were loaded since. The latter are known from the log, where every request for a file
is, and they only become more. What fits at one time therefore fits at every later one.

A state is *snug* if all values bound in it fit into the longest text read, and every error
reported fits into the longest that had been read when it was reported. An action fits if from
snug states it leads to snug states, and its result fits. Its result is looked at where more may
have been read than at the beginning, so that what is asked of it is said of a number of bytes;
for two actions one after the other, the second one begins with the number the first one ends
with.
-/

namespace DualScope

/-! ## Texts that were read -/

/-- The size in bytes of the longest of the texts. -/
def longest (texts : List String) : Nat :=
  texts.foldr (fun text n => max text.utf8ByteSize n) 0

theorem le_longest {text : String} {texts : List String} (h : text ∈ texts) :
    text.utf8ByteSize ≤ longest texts := by
  induction texts with
  | nil => cases h
  | cons other texts ih =>
      rcases List.mem_cons.mp h with rfl | h
      · exact Nat.le_max_left _ _
      · exact Nat.le_trans (ih h) (Nat.le_max_right _ _)

theorem longest_mono {texts texts' : List String} (h : ∀ text ∈ texts, text ∈ texts') :
    longest texts ≤ longest texts' := by
  induction texts with
  | nil => exact Nat.zero_le _
  | cons text texts ih =>
      obtain ⟨htext, hrest⟩ := List.forall_mem_cons.mp h
      exact Nat.max_le.mpr ⟨le_longest htext, ih hrest⟩

/-- The text that was read when a file was asked for. -/
def Event.loaded? (files : Files) : Event → Option String
  | .opened name => (files name).toOption
  | _ => none

/-- The size of the longest text read: one of those handed in, or one of the files in the log. -/
def longestRead (texts : List String) (files : Files) (log : List Event) : Nat :=
  longest (texts ++ log.filterMap (Event.loaded? files))

theorem longestRead_mono {texts texts' : List String} {log log' : List Event}
    (htexts : texts ⊆ texts') (hlog : log ⊆ log') (files : Files) :
    longestRead texts files log ≤ longestRead texts' files log' := by
  refine longest_mono fun text h => ?_
  rcases List.mem_append.mp h with h | h
  · exact List.mem_append_left _ (htexts h)
  · obtain ⟨e, he, htext⟩ := List.mem_filterMap.mp h
    exact List.mem_append_right _ (List.mem_filterMap.mpr ⟨e, hlog he, htext⟩)

theorem le_longestRead_of_text {texts : List String} {text : String} (h : text ∈ texts)
    (files : Files) (log : List Event) : text.utf8ByteSize ≤ longestRead texts files log :=
  le_longest (List.mem_append_left _ h)

theorem le_longestRead_of_file {name text : String} {files : Files} (h : files name = .ok text)
    (texts : List String) (log : List Event) :
    text.utf8ByteSize ≤ longestRead texts files (.opened name :: log) := by
  refine le_longest (List.mem_append_right _ (List.mem_filterMap.mpr ?_))
  exact ⟨.opened name, List.mem_cons_self, by rw [Event.loaded?, h]; rfl⟩

/-! ## States -/

namespace State

variable {texts : List String} {σ σ₁ σ₂ : State}

/-- How far spans may go in the state. -/
def reach (texts : List String) (σ : State) : Nat :=
  longestRead texts σ.files σ.log

/-- The files are the same, and more may have gone out. -/
structure Onward (σ σ' : State) : Prop where
  files : σ'.files = σ.files
  log : σ.log <:+ σ'.log

theorem Onward.refl (σ : State) : σ.Onward σ :=
  ⟨rfl, List.suffix_refl _⟩

theorem Onward.trans (h₁ : σ.Onward σ₁) (h₂ : σ₁.Onward σ₂) : σ.Onward σ₂ :=
  ⟨h₂.files.trans h₁.files, h₁.log.trans h₂.log⟩

theorem onward_emit (σ : State) (e : Event) : σ.Onward (σ.emit e) :=
  ⟨rfl, List.suffix_cons _ _⟩

theorem Onward.reach_le (h : σ.Onward σ₁) (texts : List String) :
    σ.reach texts ≤ σ₁.reach texts := by
  rw [reach, reach, h.files]
  exact longestRead_mono (List.Subset.refl _) h.log.subset _

/-- What an event tells fits, with what had been read before it. -/
def Tells (texts : List String) (files : Files) (older : List Event) : Event → Prop
  | .reported _ text e =>
    e.Fits (longestRead texts files older) ∧ (Report.of text e).range.Fits text.utf8ByteSize
  | _ => True

/-- All values bound in the state fit, and so did all errors when they were reported. -/
structure Snug (texts : List String) (σ : State) : Prop where
  bound : ∀ i f, σ.frames.get? i = some f → FitBindings (σ.reach texts) f.bindings
  told : ∀ e older, e :: older <:+ σ.log → Tells texts σ.files older e

theorem Snug.lookup {name : String} {i : FrameId} {v : Value} (h : σ.Snug texts)
    (hv : σ.frames.lookup name i = some v) : v.Fits (σ.reach texts) := by
  obtain ⟨j, f, b, hf, hb, rfl⟩ := Frames.bound_of_lookup hv
  exact h.bound j f hf b hb

theorem Snug.emit {e : Event} (h : σ.Snug texts) (he : Tells texts σ.files σ.log e) :
    (σ.emit e).Snug texts := by
  refine ⟨fun i f hf => ?_, fun e' older hsuffix => ?_⟩
  · exact (h.bound i f hf).mono ((onward_emit σ e).reach_le texts)
  · rcases List.suffix_cons_iff.mp hsuffix with heq | hsuffix
    · cases heq
      exact he
    · exact h.told e' older hsuffix

theorem Snug.count (h : σ.Snug texts) (made number : Nat) :
    Snug texts { σ with made := made, texts := number } :=
  ⟨h.bound, h.told⟩

theorem Snug.bind (h : σ.Snug texts) (i : FrameId) (name : String) {v : Value}
    (hv : v.Fits (σ.reach texts)) : Snug texts { σ with frames := σ.frames.bind i name v } := by
  refine ⟨fun j f hf => ?_, h.told⟩
  rw [Frames.get?_bind] at hf
  split at hf
  · obtain ⟨g, hg, rfl⟩ := Option.map_eq_some_iff.mp hf
    exact (h.bound j g hg).insert name hv
  · exact h.bound j f hf

theorem Snug.push (h : σ.Snug texts) {f : Frame} (hf : FitBindings (σ.reach texts) f.bindings) :
    (σ.push f).Snug texts := by
  refine ⟨fun j g hg => ?_, h.told⟩
  rw [State.push, Frames.get?_push] at hg
  split at hg
  · cases hg
    exact hf
  · exact h.bound j g hg

/-- Texts that are read later do no harm. -/
theorem Snug.more (h : σ.Snug texts) (text : String) : σ.Snug (text :: texts) := by
  have hmono (log : List Event) :
      longestRead texts σ.files log ≤ longestRead (text :: texts) σ.files log :=
    longestRead_mono (List.subset_cons_self _ _) (List.Subset.refl _) _
  refine ⟨fun i f hf => (h.bound i f hf).mono (hmono _), fun e older hsuffix => ?_⟩
  have htold := h.told e older hsuffix
  cases e with
  | reported source text e => exact ⟨htold.1.mono (hmono _), htold.2⟩
  | _ => trivial

end State

/-! ## Actions -/

/-- An ending in a snug state, with a result for which `P` holds at `n` bytes or more, or with
an error that fits. -/
def Ending.Fits (texts : List String) (n : Nat) (σ : State) (P : Nat → α → Prop) :
    Ending α → Prop
  | .value a σ' =>
    σ.Onward σ' ∧ σ'.Snug texts ∧ ∃ m, n ≤ m ∧ m ≤ σ'.reach texts ∧ P m a
  | .error e σ' => σ.Onward σ' ∧ σ'.Snug texts ∧ e.Fits (σ'.reach texts)
  | .cutShort => True

/-- From a snug state in which `n` bytes have been read the action comes to such an ending. -/
def Action.Fits (texts : List String) (n : Nat) (P : Nat → α → Prop) (x : Action α) : Prop :=
  ∀ σ, σ.Snug texts → n ≤ σ.reach texts → (x σ).Fits texts n σ P

/-- Expressions that fit are evaluated to values that fit. -/
def Evaluation.Fits (texts : List String) (eval : Evaluation) : Prop :=
  ∀ n e i, e.Fits n → (eval e i).Fits texts n Value.Fits

namespace Action.Fits

variable {texts : List String} {n : Nat} {P : Nat → α → Prop} {Q : Nat → β → Prop}

theorem pure {a : α} (h : P n a) : (Pure.pure a : Action α).Fits texts n P :=
  fun σ hσ hn => ⟨.refl σ, hσ, n, Nat.le_refl n, hn, h⟩

theorem fail {e : EvalError} (h : e.Fits n) : (Action.fail e : Action α).Fits texts n P :=
  fun σ hσ hn => ⟨.refl σ, hσ, h.mono hn⟩

theorem bind {x : Action α} {f : α → Action β} (hx : x.Fits texts n P)
    (hf : ∀ m a, n ≤ m → P m a → (f a).Fits texts m Q) : (x >>= f).Fits texts n Q := by
  intro σ hσ hn
  have hends := hx σ hσ hn
  rw [bind_apply]
  cases h : x σ with
  | value a σ₁ =>
      rw [h] at hends
      obtain ⟨honward, hσ₁, m, hnm, hm, ha⟩ := hends
      have hrest := hf m a hnm ha σ₁ hσ₁ hm
      dsimp only
      cases h' : f a σ₁ with
      | value b σ₂ =>
          rw [h'] at hrest
          obtain ⟨honward', hσ₂, k, hmk, hk, hb⟩ := hrest
          exact ⟨honward.trans honward', hσ₂, k, Nat.le_trans hnm hmk, hk, hb⟩
      | error e σ₂ =>
          rw [h'] at hrest
          exact ⟨honward.trans hrest.1, hrest.2⟩
      | cutShort => trivial
  | error e σ₁ =>
      rw [h] at hends
      exact hends
  | cutShort => trivial

theorem attempt {x : Action α} (hx : x.Fits texts n P) :
    x.attempt.Fits texts n fun m r => FitsExcept m (P m) r := by
  intro σ hσ hn
  have hends := hx σ hσ hn
  rw [attempt_apply]
  cases h : x σ with
  | value a σ₁ =>
      rw [h] at hends
      exact hends
  | error e σ₁ =>
      rw [h] at hends
      obtain ⟨honward, hσ₁, he⟩ := hends
      exact ⟨honward, hσ₁, _, Nat.le_trans hn (honward.reach_le texts), Nat.le_refl _, he⟩
  | cutShort => trivial

theorem ofExcept {x : Except EvalError α} (h : FitsExcept n (P n) x) :
    (Action.ofExcept x).Fits texts n P := by
  cases x with
  | ok a => exact pure h
  | error e => exact fail h

/-! ## Acts -/

theorem emit {e : Event}
    (he : ∀ files log, n ≤ longestRead texts files log → State.Tells texts files log e) :
    (Action.change (·.emit e)).Fits texts n fun _ _ => True := by
  intro σ hσ hn
  have honward := σ.onward_emit e
  exact ⟨honward, hσ.emit (he _ _ hn), n, Nat.le_refl n,
    Nat.le_trans hn (honward.reach_le texts), trivial⟩

theorem write (text : String) : (Action.write text).Fits texts n fun _ _ => True :=
  emit fun _ _ _ => trivial

theorem look (f : State → α) : (Action.look f).Fits texts n fun _ _ => True :=
  fun σ hσ hn => ⟨.refl σ, hσ, n, Nat.le_refl n, hn, trivial⟩

theorem freshIdentity : Action.freshIdentity.Fits texts n fun _ _ => True :=
  fun _ hσ hn => ⟨⟨rfl, List.suffix_refl _⟩, hσ.count _ _, n, Nat.le_refl n, hn, trivial⟩

theorem newFrame {f : Frame} (h : FitBindings n f.bindings) :
    (Action.newFrame f).Fits texts n fun _ _ => True :=
  fun _ hσ hn =>
    ⟨⟨rfl, List.suffix_refl _⟩, hσ.push (h.mono hn), n, Nat.le_refl n, hn, trivial⟩

theorem bindIn (i : FrameId) (name : String) {v : Value} (h : v.Fits n) :
    (Action.bindIn i name v).Fits texts n fun _ _ => True :=
  fun _ hσ hn =>
    ⟨⟨rfl, List.suffix_refl _⟩, hσ.bind i name (h.mono hn), n, Nat.le_refl n, hn, trivial⟩

theorem lookup (i : FrameId) (name : String) {span : Span} (h : span.Fits n) :
    (Action.lookup i name span).Fits texts n Value.Fits := by
  intro σ hσ hn
  unfold Action.lookup
  cases hv : σ.frames.lookup name i with
  | some v => exact ⟨.refl σ, hσ, _, hn, Nat.le_refl _, hσ.lookup hv⟩
  | none => exact ⟨.refl σ, hσ, h.mono hn⟩

theorem define (i : FrameId) {target v : Value} (ht : target.Fits n) (hv : v.Fits n) :
    (Action.define i target v).Fits texts n fun _ _ => True := by
  unfold Action.define
  cases target.symbol? with
  | some name => exact bindIn i name hv
  | none => exact fail ht

theorem callFrame (parent : FrameId) {formals args : Value} {span : Span}
    (hformals : formals.Fits n) (hargs : args.Fits n) (hspan : span.Fits n) :
    (Action.callFrame parent formals args span).Fits texts n fun _ _ => True := by
  have hbindings : (Action.ofExcept (callBindings formals args span)).Fits texts n FitBindings :=
    ofExcept (fits_callBindings hformals hargs hspan)
  exact hbindings.bind fun _ _ _ hbs => newFrame hbs

end Action.Fits

end DualScope
