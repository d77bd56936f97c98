import DualScope.Proofs.Likeness.State

/-!
# Readings that are alike

What the reader does with a token depends on the kind of the token and on the forms that it is
in the middle of, and the spans only go into the spans of what it makes. So from tokens of the
same kinds it makes values that are alike, and it stops at the same place with a fault that is
alike.
-/

namespace DualScope

/-- Both are values that `P` relates, or both are errors that `E` relates. -/
inductive LikeExcept (E : ε → ε' → Prop) (P : α → β → Prop) : Except ε α → Except ε' β → Prop
  | ok {a : α} {b : β} : P a b → LikeExcept E P (.ok a) (.ok b)
  | error {e : ε} {e' : ε'} : E e e' → LikeExcept E P (.error e) (.error e')

theorem LikeExcept.bind {E : ε → ε' → Prop} {P : α → β → Prop} {Q : γ → δ → Prop}
    {x : Except ε α} {y : Except ε' β} {f : α → Except ε γ} {g : β → Except ε' δ}
    (h : LikeExcept E P x y) (hfg : ∀ a b, P a b → LikeExcept E Q (f a) (g b)) :
    LikeExcept E Q (x >>= f) (y >>= g) := by
  cases h with
  | ok hab => exact hfg _ _ hab
  | error he => exact .error he

namespace Reader

variable {L : Likeness}

inductive Open.Like (L : Likeness) : Open → Open → Prop
  | quote {m m' : Span} : L.span m m' → Like L (.quote m) (.quote m')
  | list {b b' : Span} {items items' : List Value} : L.span b b' →
    List.Forall₂ (Value.Like L) items items' → Like L (.list b items) (.list b' items')
  | dotted {b b' d d' : Span} {items items' : List Value} : L.span b b' →
    List.Forall₂ (Value.Like L) items items' → L.span d d' →
      Like L (.dotted b items d) (.dotted b' items' d')

inductive Reading.Like (L : Likeness) : Reading → Reading → Prop
  | expecting {forms forms' : List Open} : List.Forall₂ (Open.Like L) forms forms' →
    Like L (.expecting forms) (.expecting forms')
  | closing {b b' : Span} {items items' : List Value} {tail tail' : Value}
    {forms forms' : List Open} : L.span b b' → List.Forall₂ (Value.Like L) items items' →
      tail.Like L tail' → List.Forall₂ (Open.Like L) forms forms' →
        Like L (.closing b items tail forms) (.closing b' items' tail' forms')

inductive Progress.Like (L : Likeness) : Progress → Progress → Prop
  | complete {v v' : Value} : v.Like L v' → Like L (.complete v) (.complete v')
  | reading {r r' : Reading} : r.Like L r' → Like L (.reading r) (.reading r')

theorem Reading.Like.wanted {r r' : Reading} (h : r.Like L r') : r'.wanted = r.wanted := by
  cases h with
  | closing _ _ _ _ => rfl
  | expecting hforms =>
      cases hforms with
      | nil => rfl
      | cons ho _ => cases ho <;> rfl

theorem Reading.Like.eq_start_iff {r r' : Reading} (h : r.Like L r') : r = start ↔ r' = start := by
  cases h with
  | closing _ _ _ _ => exact ⟨(nomatch ·), (nomatch ·)⟩
  | expecting hforms =>
      cases hforms with
      | nil => exact Iff.rfl
      | cons _ _ => exact ⟨(nomatch ·), (nomatch ·)⟩

theorem like_quotation {m m' : Span} {v v' : Value} (hm : L.span m m') (hv : v.Like L v') :
    (quotation m v).Like L (quotation m' v') := by
  have hspan := L.span_merge hm hv.span
  have htail := Value.Like.pair L.identity_anonymous hv (.nil hspan) hspan
  exact .pair L.identity_anonymous (.symbol L.name_quote hm) htail hspan

theorem like_chain {stop stop' : Span} (hstop : L.span stop stop') {items items' : List Value}
    (h : List.Forall₂ (Value.Like L) items items') {tail tail' : Value}
    (htail : tail.Like L tail') :
    (chain stop.stop tail items).Like L (chain stop'.stop tail' items') := by
  unfold chain
  induction h generalizing tail tail' with
  | nil => exact htail
  | cons hv _ ih =>
      exact ih (.pair L.identity_anonymous hv htail (L.span_range hv.span hstop))

theorem like_closeList {b b' c c' : Span} (hb : L.span b b') (hc : L.span c c')
    {items items' : List Value} (h : List.Forall₂ (Value.Like L) items items')
    {tail tail' : Value} (htail : tail.Like L tail') :
    (closeList b items tail c).Like L (closeList b' items' tail' c') := by
  have hspan := L.span_merge hb hc
  have hchain := (like_chain hc h htail).withSpan hspan
  cases h with
  | nil => exact .nil hspan
  | cons hv hvs => exact hchain

theorem like_deliver {forms forms' : List Open} (h : List.Forall₂ (Open.Like L) forms forms')
    {v v' : Value} (hv : v.Like L v') : (deliver v forms).Like L (deliver v' forms') := by
  induction h generalizing v v' with
  | nil => exact .complete hv
  | cons ho hforms ih =>
      cases ho with
      | quote hm => exact ih (like_quotation hm hv)
      | list hb hitems => exact .reading (.expecting (.cons (.list hb (.cons hv hitems)) hforms))
      | dotted hb hitems _ => exact .reading (.closing hb hitems hv hforms)

theorem like_feed {r r' : Reading} {t t' : Token} (h : r.Like L r') (ht : t.Like L t') :
    LikeExcept (ReadError.Like L) (Progress.Like L) (feed r t) (feed r' t') := by
  obtain ⟨k, s⟩ := t
  obtain ⟨k', s'⟩ := t'
  have htoken := ht
  obtain ⟨hkind, hname, hspan⟩ := ht
  dsimp only at hkind hname hspan
  subst hkind
  cases h with
  | closing hb hitems htail hforms =>
      cases k' with
      | closeParen => exact .ok (like_deliver hforms (like_closeList hb hspan hitems htail))
      | _ => exact .error (.unexpected _ htoken)
  | expecting hforms =>
      cases k' with
      | closeParen =>
          cases hforms with
          | nil => exact .error (.unexpected _ htoken)
          | cons ho hforms =>
              cases ho with
              | quote _ => exact .error (.unexpected _ htoken)
              | list hb hitems =>
                  exact .ok (like_deliver hforms (like_closeList hb hspan hitems (.nil hspan)))
              | dotted _ _ hd => exact .error (.misplacedDot hd)
      | dot =>
          cases hforms with
          | nil => exact .error (.misplacedDot hspan)
          | cons ho hforms =>
              cases ho with
              | list hb hitems =>
                  cases hitems with
                  | nil => exact .error (.misplacedDot hspan)
                  | cons hv hitems =>
                      have hopen := Open.Like.dotted hb (.cons hv hitems) hspan
                      exact .ok (Progress.Like.reading (.expecting (.cons hopen hforms)))
              | _ => exact .error (.misplacedDot hspan)
      | openParen =>
          simp only [feed]
          exact .ok (Progress.Like.reading (.expecting (.cons (.list hspan .nil) hforms)))
      | quote =>
          simp only [feed]
          exact .ok (Progress.Like.reading (.expecting (.cons (.quote hspan) hforms)))
      | symbol name =>
          simp only [feed]
          exact .ok (like_deliver hforms (.symbol (hname name rfl) hspan))
      | number x =>
          simp only [feed]
          exact .ok (like_deliver hforms (.number x hspan))
      | boolean b =>
          simp only [feed]
          exact .ok (like_deliver hforms (.boolean b hspan))
      | string t =>
          simp only [feed]
          exact .ok (like_deliver hforms (.string t hspan))

theorem like_collect {ts ts' : List Token} (hts : List.Forall₂ (Token.Like L) ts ts')
    {before before' : List Value} (hbefore : List.Forall₂ (Value.Like L) before before')
    {r r' : Reading} (h : r.Like L r') :
    List.Forall₂ (Value.Like L) (collect before r ts).1 (collect before' r' ts').1 ∧
      Option.Rel (ReadError.Like L) (collect before r ts).2 (collect before' r' ts').2 := by
  induction hts generalizing before before' r r' with
  | nil =>
      refine ⟨List.rel_reverse hbefore, ?_⟩
      simp only [collect, h.wanted]
      by_cases hstart : r = start
      · rw [if_pos hstart, if_pos (h.eq_start_iff.mp hstart)]
        exact .none
      · rw [if_neg hstart, if_neg (mt h.eq_start_iff.mpr hstart)]
        exact .some (.unfinished _)
  | @cons t t' ts ts' ht hts ih =>
      have hfeed := like_feed h ht
      rw [collect, collect]
      generalize feed r t = x at hfeed ⊢
      generalize feed r' t' = y at hfeed ⊢
      cases hfeed with
      | error he => exact ⟨List.rel_reverse hbefore, .some he⟩
      | ok hnext =>
          cases hnext with
          | complete hv => exact ih (.cons hv hbefore) (.expecting .nil)
          | reading hr => exact ih hbefore hr

/-- From tokens that are alike the reader makes values that are alike, up to a fault that is
alike. -/
theorem like_all {ts ts' : List Token} (h : List.Forall₂ (Token.Like L) ts ts') :
    List.Forall₂ (Value.Like L) (all ts).1 (all ts').1 ∧
      Option.Rel (ReadError.Like L) (all ts).2 (all ts').2 :=
  like_collect h .nil (.expecting .nil)

theorem like_program {ts ts' : List Token} (h : List.Forall₂ (Token.Like L) ts ts') :
    LikeExcept (ReadError.Like L) (List.Forall₂ (Value.Like L)) (program ts) (program ts') := by
  obtain ⟨hvs, hfault⟩ := like_all h
  rw [program, program]
  generalize all ts = x at hvs hfault ⊢
  generalize all ts' = y at hvs hfault ⊢
  obtain ⟨vs, fault⟩ := x
  obtain ⟨vs', fault'⟩ := y
  cases hfault with
  | none => exact .ok hvs
  | some he => exact .error he

end Reader

/-- A text whose names may occur has tokens that are alike to themselves. -/
theorem like_lexemes {L : Likeness} {text : String} (h : L.Admits text) :
    LikeExcept (ReadError.Like L) (List.Forall₂ (Token.Like L)) (lexemes text) (lexemes text) := by
  unfold lexemes
  cases htokens : tokenize text with
  | error e => exact .error (.lexical e)
  | ok ts =>
      exact .ok (List.forall₂_same.mpr fun t ht => ⟨rfl, h ts htokens t ht, L.span_refl t.span⟩)

end DualScope
