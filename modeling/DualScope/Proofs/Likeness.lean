import DualScope.Proofs.Spelling
import DualScope.State
import DualScope.Value.Equality
import DualScope.Value.Stamp
import Mathlib.Data.List.Forall2

/-!
# Values that are alike

Two values are alike if they are built in the same way from the same data, up to their spans
and their identities. Which spans and which identities stand for each other is left open here:
spans have to do so still after they are merged, and identities one to one. Names are the same
on both sides, and they may be confined to those with a certain property.

None of what a program can find out about values tells values that are alike from each other:
not their kind, not how long they are as lists, not whether they are equal or the same, not
how they are printed. Spans play no part in any of these questions, and of identities all that
counts is whether two of them are one.
-/

namespace DualScope

/-- What stands for what on two sides that are alike, and which names may occur there. -/
structure Likeness where
  span : Span → Span → Prop
  identity : Identity → Identity → Prop
  name : String → Prop
  /-- What went out before on the one side. -/
  log : List Event
  /-- What went out before on the other side. -/
  log' : List Event
  span_refl : ∀ s, span s s
  span_merge : ∀ {s s' t t'}, span s s' → span t t' → span (s.merge t) (s'.merge t')
  /-- The span from where the one starts to where the other stops. -/
  span_range : ∀ {s s' t t'}, span s s' → span t t' → span ⟨s.start, t.stop⟩ ⟨s'.start, t'.stop⟩
  identity_iff : ∀ {a a' b b'}, identity a a' → identity b b' → (a = b ↔ a' = b')
  identity_anonymous : identity .anonymous .anonymous
  /-- What a body of several expressions stands behind. -/
  name_begin : name "begin"
  /-- What a quote mark stands for. -/
  name_quote : name "quote"

/-- Which identities stand for each other on two sides. -/
structure Correspondence where
  rel : Identity → Identity → Prop
  rel_iff : ∀ {a a' b b'}, rel a a' → rel b b' → (a = b ↔ a' = b')
  rel_anonymous : rel .anonymous .anonymous

/-- Identities that are the same on both sides. -/
def Correspondence.same : Correspondence where
  rel := Eq
  rel_iff ha hb := by rw [ha, hb]
  rel_anonymous := rfl

/-- What stands for each other is at the same place, and the same went out before. -/
def Likeness.inPlace (ids : Correspondence) (name : String → Prop) (hbegin : name "begin")
    (hquote : name "quote") (log : List Event) : Likeness where
  span := Eq
  identity := ids.rel
  name := name
  log := log
  log' := log
  span_refl _ := rfl
  span_merge hs ht := by rw [hs, ht]
  span_range hs ht := by rw [hs, ht]
  identity_iff := ids.rel_iff
  identity_anonymous := ids.rel_anonymous
  name_begin := hbegin
  name_quote := hquote

inductive Value.Like (L : Likeness) : Value → Value → Prop
  | symbol {name : String} {s s' : Span} : L.name name → L.span s s' →
    Like L (.symbol name s) (.symbol name s')
  | number (x : Float) {s s' : Span} : L.span s s' → Like L (.number x s) (.number x s')
  | boolean (b : Bool) {s s' : Span} : L.span s s' → Like L (.boolean b s) (.boolean b s')
  | string (t : String) {s s' : Span} : L.span s s' → Like L (.string t s) (.string t s')
  | nil {s s' : Span} : L.span s s' → Like L (.nil s) (.nil s')
  | okay {s s' : Span} : L.span s s' → Like L (.okay s) (.okay s')
  | pair {id id' : Identity} {car car' cdr cdr' : Value} {s s' : Span} : L.identity id id' →
    Like L car car' → Like L cdr cdr' → L.span s s' →
      Like L (.pair id car cdr s) (.pair id' car' cdr' s')
  | primitive (p : Primitive) {s s' : Span} : L.span s s' →
    Like L (.primitive p s) (.primitive p s')
  | lambda {id id' : Identity} {formals formals' body body' : Value} (home : FrameId)
    {s s' : Span} : L.identity id id' → Like L formals formals' → Like L body body' →
      L.span s s' → Like L (.lambda id formals body home s) (.lambda id' formals' body' home s')
  | mu {id id' : Identity} {formals formals' body body' : Value} {s s' : Span} :
    L.identity id id' → Like L formals formals' → Like L body body' → L.span s s' →
      Like L (.mu id formals body s) (.mu id' formals' body' s')

/-- Spans and identities stand for themselves only. -/
structure Likeness.Strict (L : Likeness) : Prop where
  span : ∀ {s s' : Span}, L.span s s' → s' = s
  identity : ∀ {a a' : Identity}, L.identity a a' → a' = a

namespace Value

/-- All names and all identities in the value, at any depth, have these properties. -/
def Throughout (name : String → Prop) (identity : Identity → Prop) : Value → Prop
  | .symbol n _ => name n
  | .pair id car cdr _ =>
    identity id ∧ car.Throughout name identity ∧ cdr.Throughout name identity
  | .lambda id formals body _ _ | .mu id formals body _ =>
    identity id ∧ formals.Throughout name identity ∧ body.Throughout name identity
  | _ => True

variable {L : Likeness} {v v' w w' : Value}

theorem Throughout.like {name : String → Prop} {identity : Identity → Prop}
    (hname : ∀ n, name n → L.name n) (hidentity : ∀ a, identity a → L.identity a a)
    (h : v.Throughout name identity) : v.Like L v := by
  induction v with
  | symbol n span => exact .symbol (hname n h) (L.span_refl _)
  | pair id car cdr span ihcar ihcdr =>
      exact .pair (hidentity id h.1) (ihcar h.2.1) (ihcdr h.2.2) (L.span_refl _)
  | lambda id formals body home span ihf ihb =>
      exact .lambda home (hidentity id h.1) (ihf h.2.1) (ihb h.2.2) (L.span_refl _)
  | mu id formals body span ihf ihb =>
      exact .mu (hidentity id h.1) (ihf h.2.1) (ihb h.2.2) (L.span_refl _)
  | _ => constructor; exact L.span_refl _

/-- Where all names may occur and identities stand for themselves, values do so, too. -/
theorem Like.refl (hname : ∀ n, L.name n) (hidentity : ∀ a, L.identity a a) (v : Value) :
    v.Like L v := by
  suffices hall : v.Throughout (fun _ => True) (fun _ => True) from
    hall.like (fun n _ => hname n) fun a _ => hidentity a
  induction v with
  | pair id car cdr span ihcar ihcdr => exact ⟨trivial, ihcar, ihcdr⟩
  | lambda id formals body home span ihf ihb => exact ⟨trivial, ihf, ihb⟩
  | mu id formals body span ihf ihb => exact ⟨trivial, ihf, ihb⟩
  | _ => trivial

theorem Like.eq (hL : L.Strict) (h : v.Like L v') : v' = v := by
  induction h with
  | pair hid _ _ hs ihcar ihcdr => rw [hL.identity hid, ihcar, ihcdr, hL.span hs]
  | lambda home hid _ _ hs ihf ihb => rw [hL.identity hid, ihf, ihb, hL.span hs]
  | mu hid _ _ hs ihf ihb => rw [hL.identity hid, ihf, ihb, hL.span hs]
  | symbol _ hs => rw [hL.span hs]
  | nil hs => rw [hL.span hs]
  | okay hs => rw [hL.span hs]
  | number _ hs => rw [hL.span hs]
  | boolean _ hs => rw [hL.span hs]
  | string _ hs => rw [hL.span hs]
  | primitive _ hs => rw [hL.span hs]

namespace Like

/-! ## Looking at values -/

theorem span (h : v.Like L v') : L.span v.span v'.span := by
  cases h <;> assumption

theorem withSpan {s s' : Span} (h : v.Like L v') (hs : L.span s s') :
    (v.withSpan s).Like L (v'.withSpan s') := by
  cases h with
  | symbol hname _ => exact .symbol hname hs
  | pair hid hcar hcdr _ => exact .pair hid hcar hcdr hs
  | lambda home hid hformals hbody _ => exact .lambda home hid hformals hbody hs
  | mu hid hformals hbody _ => exact .mu hid hformals hbody hs
  | _ => constructor; exact hs

theorem kind (h : v.Like L v') : v'.kind = v.kind := by
  cases h <;> rfl

theorem isTrue (h : v.Like L v') : v'.isTrue = v.isTrue := by
  cases h with
  | boolean b _ => cases b <;> rfl
  | _ => rfl

theorem isNil (h : v.Like L v') : v'.isNil = v.isNil := by
  cases h <;> rfl

theorem isOkay (h : v.Like L v') : v'.isOkay = v.isOkay := by
  cases h <;> rfl

theorem symbol? (h : v.Like L v') : v'.symbol? = v.symbol? := by
  cases h <;> rfl

theorem name (h : v.Like L v') {name : String} (hv : v.symbol? = some name) : L.name name := by
  cases h with
  | symbol hname _ =>
      cases hv
      exact hname
  | _ => cases hv

theorem car? (h : v.Like L v') : Option.Rel (Value.Like L) v.car? v'.car? := by
  cases h with
  | pair _ hcar _ _ => exact .some hcar
  | _ => exact .none

/-! ## Values as lists -/

theorem isProper (h : v.Like L v') : v'.isProper = v.isProper := by
  induction h with
  | pair _ _ _ _ _ ih => exact ih
  | _ => rfl

theorem elements (h : v.Like L v') : List.Forall₂ (Value.Like L) v.elements v'.elements := by
  induction h with
  | pair _ hcar _ _ _ ih =>
      rw [elements_pair, elements_pair]
      exact .cons hcar ih
  | _ => exact .nil

theorem list? (h : v.Like L v') :
    Option.Rel (List.Forall₂ (Value.Like L)) v.list? v'.list? := by
  rw [Value.list?, Value.list?, h.isProper]
  split
  · exact .some h.elements
  · exact .none

theorem length? (h : v.Like L v') : v'.length? = v.length? := by
  rw [Value.length?, Value.length?, Value.list?, Value.list?, h.isProper]
  split
  · exact congrArg some h.elements.length_eq.symm
  · rfl

end Like

theorem like_ofList {vs vs' : List Value} (h : List.Forall₂ (Like L) vs vs') :
    (ofList vs).Like L (ofList vs') := by
  induction h with
  | nil => exact .nil (L.span_refl _)
  | cons hv _ ih => exact .pair L.identity_anonymous hv ih (L.span_merge hv.span ih.span)

/-- The pairs of a list are numbered from its end. -/
theorem ofListFrom_cons (first : Nat) (v : Value) (vs : List Value) :
    ofListFrom first (v :: vs) = .pair (.made (first + vs.length)) v (ofListFrom first vs)
      (v.span.merge (ofListFrom first vs).span) := by
  have hnext : (vs.foldr
      (fun v p => (pair (.made p.2) v p.1 (v.span.merge p.1.span), p.2 + 1))
      (nil .none, first)).2 = first + vs.length := by
    induction vs with
    | nil => rfl
    | cons w vs ih => exact congrArg (· + 1) ih
  rw [← hnext]
  rfl

/-! ## Equality -/

theorem equal_eq_equalAtom (h : v.car? = none ∨ w.car? = none) : equal v w = equalAtom v w := by
  cases v with
  | pair id car cdr span =>
      cases w with
      | pair id' car' cdr' span' => rcases h with h | h <;> cases h
      | _ => simp [equal, allEqual]
  | _ => simp [equal, allEqual]

theorem Like.equalAtom (hv : v.Like L v') (hw : w.Like L w') :
    v'.equalAtom w' = v.equalAtom w := by
  cases hv with
  | lambda home hid _ _ _ =>
      cases hw with
      | lambda home' hid' _ _ _ => exact beq_eq_beq.mpr (L.identity_iff hid hid').symm
      | _ => rfl
  | mu hid _ _ _ =>
      cases hw with
      | mu hid' _ _ _ => exact beq_eq_beq.mpr (L.identity_iff hid hid').symm
      | _ => rfl
  | _ => cases hw <;> rfl

theorem Like.equal (hv : v.Like L v') (hw : w.Like L w') : v'.equal w' = v.equal w := by
  induction hv generalizing w w' with
  | pair _ _ _ _ ihcar ihcdr =>
      cases hw with
      | pair _ hcar hcdr _ => rw [equal_pair, equal_pair, ihcar hcar, ihcdr hcdr]
      | _ => rw [equal_eq_equalAtom (.inr rfl), equal_eq_equalAtom (.inr rfl)]; rfl
  | _ =>
      rw [equal_eq_equalAtom (.inl rfl), equal_eq_equalAtom (.inl rfl)]
      exact Like.equalAtom (by constructor <;> assumption) hw

theorem same_eq_equal (h : v.car? = none ∨ w.car? = none) : same v w = equal v w := by
  cases v with
  | pair id car cdr span =>
      cases w with
      | pair id' car' cdr' span' => rcases h with h | h <;> cases h
      | _ => rfl
  | _ => rfl

theorem Like.same (hv : v.Like L v') (hw : w.Like L w') : v'.same w' = v.same w := by
  have hequal := hv.equal hw
  cases hv with
  | pair hid _ _ _ =>
      cases hw with
      | pair hid' _ _ _ => exact beq_eq_beq.mpr (L.identity_iff hid hid').symm
      | _ => rwa [same_eq_equal (.inr rfl), same_eq_equal (.inr rfl)]
  | _ => rwa [same_eq_equal (.inl rfl), same_eq_equal (.inl rfl)]

/-! ## Text -/

theorem Like.asRest (h : v.Like L v') (text : List Char) : v'.asRest text = v.asRest text := by
  cases h <;> rfl

theorem Like.spelling (h : v.Like L v') : v'.spelling = v.spelling := by
  induction h with
  | pair _ _ hcdr _ ihcar ihcdr =>
      rw [spelling_pair, spelling_pair, restSpelling, restSpelling, hcdr.asRest, ihcar, ihcdr]
  | lambda _ _ _ _ _ ihf ihb => rw [spelling_lambda, spelling_lambda, ihf, ihb]
  | mu _ _ _ _ ihf ihb => rw [spelling_mu, spelling_mu, ihf, ihb]
  | _ => rfl

theorem Like.text (h : v.Like L v') : v'.text = v.text :=
  String.toList_injective (by rw [toList_text, toList_text, h.spelling])

theorem Like.shown (h : v.Like L v') : v'.shown = v.shown := by
  have htext := h.text
  cases h with
  | string t _ => rfl
  | _ => exact htext

/-! ## Identities -/

section

variable {text text' : Nat}

theorem Like.stamp (htext : ∀ k, L.identity (.read text k) (.read text' k)) (level next : Nat)
    (h : v.Like L v') :
    (v.stamp text level next).1.Like L (v'.stamp text' level next).1 ∧
      (v'.stamp text' level next).2 = (v.stamp text level next).2 := by
  induction h generalizing level next with
  | pair _ _ _ hs ihcar ihcdr =>
      simp only [Value.stamp, atLevel_eq]
      obtain ⟨hcar, hfirst⟩ := ihcar (level + 1) next
      rw [hfirst]
      obtain ⟨hcdr, hsecond⟩ := ihcdr (level + 1) _
      rw [hsecond]
      exact ⟨.pair (htext _) hcar hcdr hs, rfl⟩
  | _ => exact ⟨by constructor <;> assumption, rfl⟩

theorem like_stampAll (htext : ∀ k, L.identity (.read text k) (.read text' k))
    {vs vs' : List Value} (h : List.Forall₂ (Like L) vs vs') :
    List.Forall₂ (Like L) (stampAll text vs) (stampAll text' vs') := by
  suffices hfold : ∀ {done done' : List Value} {next : Nat}, List.Forall₂ (Like L) done done' →
      List.Forall₂ (Like L)
        (vs.foldl (fun p v =>
          ((v.stamp text 0 p.2).1 :: p.1, (v.stamp text 0 p.2).2)) (done, next)).1
        (vs'.foldl (fun p v =>
          ((v.stamp text' 0 p.2).1 :: p.1, (v.stamp text' 0 p.2).2)) (done', next)).1 from
    List.rel_reverse (hfold .nil)
  induction h with
  | nil => exact fun hdone => hdone
  | cons hv _ ih =>
      intro done done' next hdone
      obtain ⟨hstamp, hnext⟩ := hv.stamp htext 0 next
      simp only [List.foldl_cons, hnext]
      exact ih (.cons hstamp hdone)

end

end Value

end DualScope
