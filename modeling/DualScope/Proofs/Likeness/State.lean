import DualScope.Proofs.Likeness
import DualScope.Proofs.Discipline

/-!
# States that are alike

Errors are alike if they are of one kind with data that is alike, and so are the events of a
log. Frames are alike if they have the same parent and mean the same by every name that may
occur, up to values that are alike.

In states that are alike the frames stand side by side, number by number, the files are the
same, and the identities that are still to be given out stand for each other. What had gone
out before may differ, and what has gone out since is alike.
-/

namespace DualScope

variable {L : Likeness}

/-! ## Errors and events -/

inductive FormFault.Like (L : Likeness) : FormFault → FormFault → Prop
  | tooFew (least found : Nat) : Like L (.tooFew least found) (.tooFew least found)
  | tooMany (most found : Nat) : Like L (.tooMany most found) (.tooMany most found)
  | badBindings {v v' : Value} : v.Like L v' → Like L (.badBindings v) (.badBindings v')
  | noBody : Like L .noBody .noBody

inductive EvalError.Like (L : Likeness) : EvalError → EvalError → Prop
  | unbound (name : String) {s s' : Span} : L.span s s' →
    Like L (.unbound name s) (.unbound name s')
  | badTarget {v v' : Value} : v.Like L v' → Like L (.badTarget v) (.badTarget v')
  | argumentCount (expected found : Nat) {s s' : Span} : L.span s s' →
    Like L (.argumentCount expected found s) (.argumentCount expected found s')
  | missingExpression : Like L .missingExpression .missingExpression
  | malformed {v v' : Value} : v.Like L v' → Like L (.malformed v) (.malformed v')
  | badForm {f f' : FormFault} {s s' : Span} : f.Like L f' → L.span s s' →
    Like L (.badForm f s) (.badForm f' s')
  | badDefinition {v v' : Value} : v.Like L v' → Like L (.badDefinition v) (.badDefinition v')
  | badElse (f : ElseFault) {s s' : Span} : L.span s s' → Like L (.badElse f s) (.badElse f s')
  | duplicateFormal (name : String) {s s' : Span} : L.span s s' →
    Like L (.duplicateFormal name s) (.duplicateFormal name s')
  | badFormal {v v' : Value} : v.Like L v' → Like L (.badFormal v) (.badFormal v')
  | notCallable {v v' : Value} {s s' : Span} : v.Like L v' → L.span s s' →
    Like L (.notCallable v s) (.notCallable v' s')
  | primitive (p : Primitive) (f : Fault) {s s' : Span} : L.span s s' →
    Like L (.primitive p f s) (.primitive p f s')
  | tooDeep (limit : Nat) : Like L (.tooDeep limit) (.tooDeep limit)

/-- Two tokens of the same kind, and if that is a name, one that may occur. -/
structure Token.Like (L : Likeness) (t t' : Token) : Prop where
  kind : t'.kind = t.kind
  name : ∀ name, t.kind = .symbol name → L.name name
  span : L.span t.span t'.span

inductive ReadError.Like (L : Likeness) : ReadError → ReadError → Prop
  | lexical (e : LexError) : Like L (.lexical e) (.lexical e)
  | unexpected {t t' : Token} (wanted : Wanted) : t.Like L t' →
    Like L (.unexpected t wanted) (.unexpected t' wanted)
  | unfinished (wanted : Wanted) : Like L (.unfinished wanted) (.unfinished wanted)
  | misplacedDot {s s' : Span} : L.span s s' → Like L (.misplacedDot s) (.misplacedDot s')

inductive RunError.Like (L : Likeness) : RunError → RunError → Prop
  | read {e e' : ReadError} : e.Like L e' → Like L (.read e) (.read e')
  | eval {e e' : EvalError} : e.Like L e' → Like L (.eval e) (.eval e')

inductive Event.Like (L : Likeness) : Event → Event → Prop
  | wrote (text : String) : Like L (.wrote text) (.wrote text)
  | complained (text : String) : Like L (.complained text) (.complained text)
  | reported (source text : String) {e e' : RunError} : e.Like L e' →
    Like L (.reported source text e) (.reported source text e')
  | opened (name : String) : Like L (.opened name) (.opened name)

/-- Logs that are alike have the same text on the standard output. -/
theorem Event.textOf_output_like {log log' : List Event}
    (h : List.Forall₂ (Event.Like L) log log') :
    Event.textOf Event.output? log' = Event.textOf Event.output? log := by
  have hpicked : log'.filterMap Event.output? = log.filterMap Event.output? := by
    induction h with
    | nil => rfl
    | cons he _ ih => cases he <;> simp [List.filterMap_cons, Event.output?, ih]
  rw [Event.textOf, Event.textOf, hpicked]

section

variable (hL : L.Strict)

include hL

theorem EvalError.Like.eq {e e' : EvalError} (h : e.Like L e') : e' = e := by
  cases h with
  | badTarget hv => rw [hv.eq hL]
  | malformed hv => rw [hv.eq hL]
  | badDefinition hv => rw [hv.eq hL]
  | badFormal hv => rw [hv.eq hL]
  | notCallable hv hs => rw [hv.eq hL, hL.span hs]
  | badForm hf hs =>
      rw [hL.span hs]
      cases hf with
      | badBindings hv => rw [hv.eq hL]
      | _ => rfl
  | unbound _ hs => rw [hL.span hs]
  | argumentCount _ _ hs => rw [hL.span hs]
  | badElse _ hs => rw [hL.span hs]
  | duplicateFormal _ hs => rw [hL.span hs]
  | primitive _ _ hs => rw [hL.span hs]
  | missingExpression => rfl
  | tooDeep limit => rfl

theorem Token.Like.eq {t t' : Token} (h : t.Like L t') : t' = t := by
  obtain ⟨hkind, -, hs⟩ := h
  cases t
  cases t'
  rw [Token.mk.injEq]
  exact ⟨hkind, hL.span hs⟩

theorem ReadError.Like.eq {e e' : ReadError} (h : e.Like L e') : e' = e := by
  cases h with
  | unexpected wanted ht => rw [ht.eq hL]
  | misplacedDot hs => rw [hL.span hs]
  | _ => rfl

theorem Event.Like.eq {e e' : Event} (h : e.Like L e') : e' = e := by
  cases h with
  | reported source text he =>
      cases he with
      | read he => rw [he.eq hL]
      | eval he => rw [he.eq hL]
  | _ => rfl

end

/-! ## Frames -/

theorem cases_of_rel {R : α → β → Prop} {o : Option α} {o' : Option β} (h : Option.Rel R o o') :
    o = none ∧ o' = none ∨ ∃ a b, o = some a ∧ o' = some b ∧ R a b := by
  cases h with
  | none => exact .inl ⟨rfl, rfl⟩
  | some hab => exact .inr ⟨_, _, rfl, rfl, hab⟩

/-- The same parent, and for each name that may occur values that are alike, or none. -/
structure Frame.Like (L : Likeness) (f f' : Frame) : Prop where
  parent : f'.parent = f.parent
  find : ∀ name, L.name name → Option.Rel (Value.Like L) (f.find? name) (f'.find? name)

theorem Frame.Like.bind {f f' : Frame} {v v' : Value} (h : f.Like L f') (name : String)
    (hv : v.Like L v') : (f.bind name v).Like L (f'.bind name v') := by
  refine ⟨h.parent, fun n hn => ?_⟩
  rw [find?_bind, find?_bind]
  split
  · exact .some hv
  · exact h.find n hn

/-- The same names, all of which may occur, are bound in the same order to values that are
alike. -/
def LikeBindings (L : Likeness) (bs bs' : List (String × Value)) : Prop :=
  List.Forall₂ (fun b b' => b'.1 = b.1 ∧ L.name b.1 ∧ b.2.Like L b'.2) bs bs'

theorem Frame.like_of_bindings (parent : Option FrameId) {bs bs' : List (String × Value)}
    (h : LikeBindings L bs bs') :
    (Frame.mk parent bs).Like L ⟨parent, bs'⟩ := by
  refine ⟨rfl, fun name _ => ?_⟩
  simp only [find?]
  induction h with
  | nil => exact .none
  | @cons b b' bs bs' hb _ ih =>
      obtain ⟨n, v⟩ := b
      obtain ⟨n', v'⟩ := b'
      obtain ⟨rfl, -, hv⟩ := hb
      rw [List.lookup_cons, List.lookup_cons]
      cases name == n' with
      | true => exact .some hv
      | false => exact ih

/-- Frames that stand side by side. -/
def Frames.Like (L : Likeness) (fs gs : Frames) : Prop :=
  ∀ i, Option.Rel (Frame.Like L) (fs.get? i) (gs.get? i)

namespace Frames.Like

variable {fs gs : Frames}

theorem cases (h : fs.Like L gs) (i : FrameId) :
    fs.get? i = none ∧ gs.get? i = none ∨
      ∃ f g, fs.get? i = some f ∧ gs.get? i = some g ∧ f.Like L g :=
  cases_of_rel (h i)

theorem size (h : fs.Like L gs) : gs.size = fs.size := by
  have hlt : ∀ i, i < gs.size ↔ i < fs.size := by
    intro i
    rw [← get?_isSome, ← get?_isSome]
    rcases h.cases i with ⟨hf, hg⟩ | ⟨f, g, hf, hg, _⟩
    · rw [hf, hg]
    · rw [hf, hg]
      rfl
  exact Nat.le_antisymm (Nat.le_of_not_lt fun h => Nat.lt_irrefl _ ((hlt _).mp h))
    (Nat.le_of_not_lt fun h => Nat.lt_irrefl _ ((hlt _).mpr h))

theorem lookup (h : fs.Like L gs) {name : String} (hname : L.name name) (i : FrameId) :
    Option.Rel (Value.Like L) (fs.lookup name i) (gs.lookup name i) := by
  induction i using Nat.strongRecOn with
  | ind i ih =>
      rw [lookup.eq_def, lookup.eq_def]
      rcases h.cases i with ⟨hf, hg⟩ | ⟨f, g, hf, hg, hfg⟩
      · rw [hf, hg]
        exact .none
      · rw [hf, hg]
        dsimp only
        rcases cases_of_rel (hfg.find name hname) with ⟨hv, hv'⟩ | ⟨v, v', hv, hv', hlike⟩
        · rw [hv, hv', hfg.parent]
          dsimp only
          cases f.parent with
          | none => exact .none
          | some p =>
              dsimp only
              split
              · next hlt => exact ih p hlt
              · exact .none
        · rw [hv, hv']
          exact .some hlike

theorem chain (h : fs.Like L gs) (i : FrameId) : gs.chain i = fs.chain i := by
  induction i using Nat.strongRecOn with
  | ind i ih =>
      rw [chain.eq_def, chain.eq_def]
      rcases h.cases i with ⟨hf, hg⟩ | ⟨f, g, hf, hg, hfg⟩
      · rw [hf, hg]
      · rw [hf, hg]
        dsimp only
        rw [hfg.parent]
        cases f.parent with
        | none => rfl
        | some p =>
            dsimp only
            split
            · next hlt => rw [ih p hlt]
            · rfl

theorem root (h : fs.Like L gs) (i : FrameId) : gs.root i = fs.root i := by
  rw [Frames.root, Frames.root, h.chain]

theorem bind (h : fs.Like L gs) (i : FrameId) (name : String) {v v' : Value}
    (hv : v.Like L v') : (fs.bind i name v).Like L (gs.bind i name v') := by
  intro j
  rw [get?_bind, get?_bind]
  split
  · rcases h.cases j with ⟨hf, hg⟩ | ⟨f, g, hf, hg, hfg⟩
    · rw [hf, hg]
      exact .none
    · rw [hf, hg]
      exact .some (hfg.bind name hv)
  · exact h j

theorem push (h : fs.Like L gs) {f g : Frame} (hfg : f.Like L g) :
    (fs.push f).Like L (gs.push g) := by
  intro j
  rw [get?_push, get?_push, h.size]
  split
  · exact .some hfg
  · exact h j

end Frames.Like

/-! ## States -/

/-- The names in the text may occur. -/
def Likeness.Admits (L : Likeness) (text : String) : Prop :=
  ∀ ts, tokenize text = .ok ts → ∀ t ∈ ts, ∀ name, t.kind = .symbol name → L.name name

structure State.Like (L : Likeness) (σ τ : State) : Prop where
  files : τ.files = σ.files
  admits : ∀ name text, σ.files name = .ok text → L.Admits text
  made : ∀ k, L.identity (.made (σ.made + k)) (.made (τ.made + k))
  texts : ∀ k index, L.identity (.read (σ.texts + k) index) (.read (τ.texts + k) index)
  frames : σ.frames.Like L τ.frames
  log : ∃ new new', σ.log = new ++ L.log ∧ τ.log = new' ++ L.log' ∧
    List.Forall₂ (Event.Like L) new new'

namespace State.Like

variable {σ τ : State}

/-- What has gone out since is alike. -/
theorem since {σ₀ τ₀ : State} (h : σ.Like L τ) (hσ : σ₀.log = L.log) (hτ : τ₀.log = L.log') :
    List.Forall₂ (Event.Like L) (σ.since σ₀) (τ.since τ₀) := by
  obtain ⟨new, new', hnew, hnew', hlike⟩ := h.log
  rw [since_eq (hσ ▸ hnew), since_eq (hτ ▸ hnew')]
  exact hlike

theorem emit (h : σ.Like L τ) {e e' : Event} (he : e.Like L e') :
    (σ.emit e).Like L (τ.emit e') := by
  obtain ⟨new, new', hσ, hτ, hnew⟩ := h.log
  refine { h with log := ⟨e :: new, e' :: new', ?_, ?_, .cons he hnew⟩ }
  · exact congrArg (e :: ·) hσ
  · exact congrArg (e' :: ·) hτ

theorem count (h : σ.Like L τ) (made texts : Nat) :
    State.Like L { σ with made := σ.made + made, texts := σ.texts + texts }
      { τ with made := τ.made + made, texts := τ.texts + texts } := by
  refine { h with made := fun k => ?_, texts := fun k index => ?_ }
  · rw [Nat.add_assoc, Nat.add_assoc]
    exact h.made (made + k)
  · rw [Nat.add_assoc, Nat.add_assoc]
    exact h.texts (texts + k) index

theorem push (h : σ.Like L τ) {f f' : Frame} (hf : f.Like L f') :
    (σ.push f).Like L (τ.push f') :=
  { h with frames := h.frames.push hf }

theorem bind (h : σ.Like L τ) (i : FrameId) (name : String) {v v' : Value} (hv : v.Like L v') :
    State.Like L { σ with frames := σ.frames.bind i name v }
      { τ with frames := τ.frames.bind i name v' } :=
  { h with frames := h.frames.bind i name hv }

end State.Like

end DualScope
