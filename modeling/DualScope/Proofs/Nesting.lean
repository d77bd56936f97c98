import DualScope.Proofs.Faults
import DualScope.Value.Nodes

/-!
# How the spans of a tree nest

The nodes of a tree that was read stand in the order of the text. A pair covers its two parts, and
its first part ends before what comes next in the list, be it the first part of the next pair or a
tail behind a dot. This cannot be told from where the second part of a pair starts: behind a quote
mark there are three nodes that all span the mark and what is quoted.

What can be told is which tokens a node is of. Each one spans some tokens that follow one another,
and the parts of a pair are of tokens in front and of tokens behind; as tokens stand in order, so do
the parts. The empty list that ends a quotation is the one part that is of the same tokens as the
pair, and nothing has to stand in front of it.
-/

namespace DualScope

/-! ## Nodes -/

namespace Value

/-- The property holds of the value and, if it is a pair, all through its parts. -/
def Everywhere (P : Value → Prop) : Value → Prop
  | .pair id car cdr span => P (.pair id car cdr span) ∧ car.Everywhere P ∧ cdr.Everywhere P
  | v => P v

variable {P Q : Value → Prop} {v : Value}

theorem Everywhere.self (h : v.Everywhere P) : P v := by
  cases v with
  | pair id car cdr span => exact h.1
  | _ => exact h

theorem Everywhere.car? {w : Value} (h : v.Everywhere P) (hw : v.car? = some w) :
    w.Everywhere P := by
  cases v with
  | pair id car cdr span =>
      cases hw
      exact h.2.1
  | _ => cases hw

theorem Everywhere.mono (h : v.Everywhere P) (hPQ : ∀ w, P w → Q w) : v.Everywhere Q := by
  induction v with
  | pair id car cdr span ihcar ihcdr => exact ⟨hPQ _ h.1, ihcar h.2.1, ihcdr h.2.2⟩
  | _ => exact hPQ _ h

theorem forall_mem_nodesAfter {found vs : List Value} :
    (∀ w ∈ nodesAfter found vs, P w) ↔ (∀ w ∈ found, P w) ∧ ∀ v ∈ vs, v.Everywhere P := by
  fun_induction nodesAfter found vs with
  | case1 found => simp
  | case2 found id car cdr span rest ih =>
      rw [ih]
      simp only [List.forall_mem_cons, Everywhere, and_assoc]
      exact and_left_comm
  | case3 found v rest hv ih =>
      have hself : v.Everywhere P ↔ P v := by
        cases v with
        | pair id car cdr span => exact absurd rfl (hv id car cdr span)
        | _ => rfl
      rw [ih]
      simp only [List.forall_mem_cons, hself, and_assoc]
      exact and_left_comm

theorem forall_mem_nodes : (∀ w ∈ v.nodes, P w) ↔ v.Everywhere P := by
  simp [nodes, forall_mem_nodesAfter]

end Value

/-! ## Pairs in place -/

/-- The span covers the other one. -/
def Span.Covers (s t : Span) : Prop :=
  s.start ≤ t.start ∧ t.stop ≤ s.stop

/-- A pair with this span covers its parts, and its first part ends before what comes next: the
first part of the next pair, or the tail unless it is the empty list. -/
structure Span.Nests (s : Span) (car cdr : Value) : Prop where
  first : s.Covers car.span
  second : s.Covers cdr.span
  next : ∀ v, cdr.car? = some v → car.span.stop ≤ v.span.start
  tail : cdr.kind ≠ .pair → cdr.kind ≠ .nil → car.span.stop ≤ cdr.span.start

namespace Span

variable {r s t : Span}

theorem Covers.refl (s : Span) : s.Covers s :=
  ⟨Nat.le_refl _, Nat.le_refl _⟩

theorem Covers.trans (h : r.Covers s) (h' : s.Covers t) : r.Covers t :=
  ⟨Nat.le_trans h.1 h'.1, Nat.le_trans h'.2 h.2⟩

theorem Nests.widen {car cdr : Value} (h : s.Nests car cdr) (hr : r.Covers s) : r.Nests car cdr :=
  ⟨hr.trans h.first, hr.trans h.second, h.next, h.tail⟩

end Span

namespace Grammar

open Lexer (Ordered)

variable {ts us ws front back : List Token} {s t : Span} {v w tail : Value} {vs : List Value}

/-! ## Extents in order -/

/-- The extent of tokens covers each of them. -/
theorem Extent.covers_token (h : Extent ts s) (hordered : Ordered ts) {t : Token} (ht : t ∈ ts) :
    s.Covers t.span := by
  obtain ⟨first, hfirst, last, hlast, rfl⟩ := h
  have htaken := hordered.taken t ht
  constructor
  · obtain ⟨rest, rfl⟩ := List.head?_eq_some_iff.mp hfirst
    rcases List.mem_cons.mp ht with rfl | ht
    · exact Nat.le_refl _
    · have hbehind := List.rel_of_pairwise_cons hordered.apart ht
      have hself := hordered.taken first List.mem_cons_self
      show first.span.start ≤ t.span.start
      omega
  · obtain ⟨rest, rfl⟩ := List.getLast?_eq_some_iff.mp hlast
    rcases List.mem_append.mp ht with ht | ht
    · have hbehind := (List.pairwise_append.mp hordered.apart).2.2 t ht last List.mem_cons_self
      have hself := hordered.taken last (List.mem_append_right rest List.mem_cons_self)
      show t.span.stop ≤ last.span.stop
      omega
    · cases List.mem_singleton.mp ht
      exact Nat.le_refl _

theorem Extent.covers (h : Extent us s) (hts : Extent ts t) (hin : us <:+: ts)
    (hordered : Ordered ts) : t.Covers s := by
  obtain ⟨first, hfirst, last, hlast, rfl⟩ := h
  have hf := hts.covers_token hordered (hin.subset (List.mem_of_mem_head? hfirst))
  have hl := hts.covers_token hordered (hin.subset (List.mem_of_getLast? hlast))
  exact ⟨hf.1, hl.2⟩

theorem Extent.before (h : Extent us s) (h' : Extent ws t) (hin : us <:+: front)
    (hin' : ws <:+: back) (hordered : Ordered (front ++ back)) : s.stop ≤ t.start := by
  obtain ⟨_, _, last, hlast, rfl⟩ := h
  obtain ⟨first, hfirst, _, _, rfl⟩ := h'
  exact (List.pairwise_append.mp hordered.apart).2.2 last
    (hin.subset (List.mem_of_getLast? hlast)) first (hin'.subset (List.mem_of_mem_head? hfirst))

/-! ## Trees in place -/

/-- The node spans some of the tokens that follow one another, and if it is a pair its parts are in
place. -/
structure InPlace (ts : List Token) (v : Value) : Prop where
  span : ∃ us, us <:+: ts ∧ Extent us v.span
  parts : ∀ id car cdr s, v = .pair id car cdr s → s.Nests car cdr

theorem InPlace.mono (h : InPlace us v) (hin : us <:+: ts) : InPlace ts v := by
  obtain ⟨ws, hws, hextent⟩ := h.span
  exact ⟨⟨ws, hws.trans hin, hextent⟩, h.parts⟩

theorem inPlace_mono (h : v.Everywhere (InPlace us)) (hin : us <:+: ts) :
    v.Everywhere (InPlace ts) :=
  h.mono fun _ hw => hw.mono hin

/-- What is in place in tokens behind ends and starts behind. -/
theorem InPlace.behind (h : InPlace back w) (hv : Extent front s)
    (hordered : Ordered (front ++ back)) : s.stop ≤ w.span.start := by
  obtain ⟨us, hus, hextent⟩ := h.span
  exact hv.before hextent (List.infix_refl front) hus hordered

theorem InPlace.covered (h : InPlace us w) (hts : Extent ts s) (hin : us <:+: ts)
    (hordered : Ordered ts) : s.Covers w.span := by
  obtain ⟨ws, hws, hextent⟩ := h.span
  exact hextent.covers hts (hws.trans hin) hordered

/-- A pair over tokens that hold its first part and, behind this, its second part. -/
theorem nests_of_apart (hts : Extent ts s) (hin : front ++ back <:+: ts) (hordered : Ordered ts)
    (hcar : Extent front v.span) (hcdr : tail.Everywhere (InPlace back)) : s.Nests v tail := by
  have hapart : Ordered (front ++ back) := hordered.of_sublist hin.sublist
  have hfront : front <:+: ts := (List.prefix_append front back).isInfix.trans hin
  have hback : back <:+: ts := (List.suffix_append front back).isInfix.trans hin
  exact {
    first := hcar.covers hts hfront hordered
    second := hcdr.self.covered hts hback hordered
    next := fun _ hnext => (hcdr.car? hnext).self.behind hcar hapart
    tail := fun _ _ => hcdr.self.behind hcar hapart }

theorem inPlace_atom (hv : v.car? = none) (h : Extent ts v.span) : v.Everywhere (InPlace ts) := by
  have hplace : InPlace ts v := by
    refine ⟨⟨ts, List.infix_refl ts, h⟩, ?_⟩
    rintro id car cdr s rfl
    cases hv
  cases v with
  | pair id car cdr span => cases hv
  | _ => exact hplace

theorem inPlace_pair {id : Identity} (hs : Extent ts s) (hparts : s.Nests v tail)
    (hcar : v.Everywhere (InPlace ts)) (hcdr : tail.Everywhere (InPlace ts)) :
    (Value.pair id v tail s).Everywhere (InPlace ts) := by
  refine ⟨⟨⟨ts, List.infix_refl ts, hs⟩, ?_⟩, hcar, hcdr⟩
  rintro _ _ _ _ ⟨⟩
  exact hparts

/-- Brackets around a list whose pairs are in place. -/
theorem inPlace_bracketed {bracket close : Span}
    (hchain : (chain close.stop tail vs).Everywhere (InPlace us)) (hin : us <:+: ts)
    (hts : Extent ts (bracket.merge close)) (hordered : Ordered ts) :
    (bracketed bracket close tail vs).Everywhere (InPlace ts) := by
  cases vs with
  | nil => exact inPlace_atom rfl hts
  | cons v vs =>
      have hcovers := hchain.self.covered hts hin hordered
      have hparts := hchain.self.parts _ _ _ _ rfl
      exact inPlace_pair hts (hparts.widen hcovers) (inPlace_mono hchain.2.1 hin)
        (inPlace_mono hchain.2.2 hin)

/-- The pair that a quotation starts with and the one behind it have the same span. -/
theorem inPlace_quoted {mark : Span} (hv : v.Everywhere (InPlace ts)) (hts : Extent ts v.span)
    (hordered : Ordered (⟨.quote, mark⟩ :: ts)) :
    (quoted mark v).Everywhere (InPlace (⟨.quote, mark⟩ :: ts)) := by
  let q : Token := ⟨.quote, mark⟩
  have hmark : Extent [q] mark := ⟨q, rfl, q, rfl, rfl⟩
  have hin : [q] <:+: q :: ts := (List.prefix_append [q] ts).isInfix
  have hin' : ts <:+: q :: ts := (List.suffix_cons q ts).isInfix
  have hwhole : Extent (q :: ts) (mark.merge v.span) := hts.cons hordered
  have hbehind : mark.stop ≤ v.span.start :=
    hmark.before hts (List.infix_refl [q]) (List.infix_refl ts) hordered
  refine inPlace_pair hwhole ?_ (inPlace_mono (inPlace_atom rfl hmark) hin)
    (inPlace_pair hwhole ?_ (inPlace_mono hv hin') (inPlace_atom rfl hwhole))
  · refine ⟨hmark.covers hwhole hin hordered, .refl _, ?_, fun hpair => absurd rfl hpair⟩
    rintro _ ⟨⟩
    exact hbehind
  · exact ⟨hts.covers hwhole hin' hordered, .refl _, nofun, fun _ hnil => absurd rfl hnil⟩

theorem Extent.to_last {last : Token} (h : Extent ts s) (hlast : last ∈ back.getLast?) :
    Extent (ts ++ back) ⟨s.start, last.span.stop⟩ := by
  obtain ⟨first, hfirst, -, -, rfl⟩ := h
  refine ⟨first, ?_, last, ?_, rfl⟩
  · rw [List.head?_append, Option.mem_def.mp hfirst]
    rfl
  · rw [List.getLast?_append, Option.mem_def.mp hlast]
    rfl

mutual

theorem Datum.inPlace {ts : List Token} {v : Value} (h : Datum ts v) (hordered : Ordered ts) :
    v.Everywhere (InPlace ts) :=
  match h with
  | .atom (t := t) hv => by
      refine inPlace_atom ?_ (Datum.extent (.atom hv) hordered)
      unfold atom? at hv
      split at hv <;> cases hv <;> rfl
  | .quote mark hv =>
      have hbehind := hordered.of_sublist (List.sublist_cons_self _ _)
      inPlace_quoted (hv.inPlace hbehind) (hv.extent hbehind) hordered
  | .list bracket close hdata => by
      have hbehind := hordered.of_sublist (List.sublist_cons_self _ _)
      let c : Token := ⟨.closeParen, close⟩
      have hclose : Extent [c] (Value.nil close).span := ⟨c, rfl, c, rfl, rfl⟩
      have hchain := hdata.inPlace_chain rfl (inPlace_atom rfl hclose) hbehind
      exact inPlace_bracketed hchain (List.suffix_cons _ _).isInfix (Extent.brackets hordered)
        hordered
  | @Datum.dotted bracket dot close _ us _ _ hdata hne htail => by
      have hbehind := hordered.of_sublist (List.sublist_cons_self _ _)
      have hextent := Datum.extent (.dotted bracket dot close hdata hne htail) hordered
      rw [span_bracketed] at hextent
      let d : Token := ⟨.dot, dot⟩
      let c : Token := ⟨.closeParen, close⟩
      have hin : us <:+: d :: (us ++ [c]) := ⟨[d], [c], rfl⟩
      have hclose : c ∈ (d :: (us ++ [c])).getLast? := by
        rw [← List.cons_append, List.getLast?_concat]
        rfl
      have hus := hbehind.of_sublist (hin.sublist.trans (List.sublist_append_right _ _))
      have hchain := hdata.inPlace_chain hclose (inPlace_mono (htail.inPlace hus) hin) hbehind
      exact inPlace_bracketed hchain (List.suffix_cons _ _).isInfix hextent hordered

/-- The pairs of a list are in place up to its closing bracket, if what they end in is so behind
the values. -/
theorem Data.inPlace_chain {ts back : List Token} {vs : List Value} {tail : Value} {close : Token}
    (h : Data ts vs) (hclose : close ∈ back.getLast?) (htail : tail.Everywhere (InPlace back))
    (hordered : Ordered (ts ++ back)) :
    (chain close.span.stop tail vs).Everywhere (InPlace (ts ++ back)) :=
  match h with
  | .nil => htail
  | @Data.cons front us v _ hv hvs => by
      rw [List.append_assoc] at hordered ⊢
      have hfront := hordered.of_sublist (List.sublist_append_left _ _)
      have hback := hordered.of_sublist (List.sublist_append_right _ _)
      have hrest := hvs.inPlace_chain hclose htail hback
      have hlast : close ∈ (us ++ back).getLast? := by
        rw [List.getLast?_append, Option.mem_def.mp hclose]
        rfl
      have hwhole := (hv.extent hfront).to_last hlast
      exact inPlace_pair hwhole
        (nests_of_apart hwhole (List.infix_refl _) hordered (hv.extent hfront) hrest)
        (inPlace_mono (hv.inPlace hfront) (List.prefix_append _ _).isInfix)
        (inPlace_mono hrest (List.suffix_append _ _).isInfix)

end

/-- The data of a row are in place and stand one behind the other. -/
theorem Data.inPlace (h : Data ts vs) (hordered : Ordered ts) :
    (∀ v ∈ vs, v.Everywhere (InPlace ts)) ∧
      vs.Pairwise fun v w => v.span.stop ≤ w.span.start := by
  induction vs generalizing ts with
  | nil => exact ⟨nofun, .nil⟩
  | cons v vs ih =>
      cases h with
      | @cons front us _ _ hv hvs =>
          have hfront := hordered.of_sublist (List.sublist_append_left front us)
          obtain ⟨hall, hpairwise⟩ := ih hvs (hordered.of_sublist (List.sublist_append_right _ _))
          refine ⟨List.forall_mem_cons.mpr ⟨?_, fun w hw => ?_⟩, .cons (fun w hw => ?_) hpairwise⟩
          · exact inPlace_mono (hv.inPlace hfront) (List.prefix_append front us).isInfix
          · exact inPlace_mono (hall w hw) (List.suffix_append front us).isInfix
          · exact (hall w hw).self.behind (hv.extent hfront) hordered

end Grammar

open Grammar (InPlace Extent)

/-! ## Texts -/

/-- In the trees of a text every node spans one or more characters of it, from the start of one to
the end of one. Every pair covers its parts, the first of which ends before what comes next, and of
two expressions the first one ends before the second one starts. -/
theorem spans_nest {text : String} {vs : List Value} (h : readProgram text = .ok vs) :
    (∀ v ∈ vs, ∀ w ∈ v.nodes,
      (∃ before part, part ≠ [] ∧ w.span.Cuts text before part) ∧
        ∀ id car cdr span, w = .pair id car cdr span → span.Nests car cdr) ∧
      vs.Pairwise fun v w => v.span.stop ≤ w.span.start := by
  obtain ⟨ts, htokens, hdata⟩ := readProgram_eq_ok_iff.mp h
  have hlaid := Lexer.tokenize_eq_ok_iff.mp htokens
  obtain ⟨hplaces, happart⟩ := hdata.inPlace hlaid.ordered.1
  refine ⟨fun v hv w hw => ?_, happart⟩
  have hw : InPlace ts w := Value.forall_mem_nodes.mpr (hplaces v hv) w hw
  obtain ⟨us, ⟨before, after, rfl⟩, hextent⟩ := hw.span
  rw [List.append_assoc] at hlaid
  exact ⟨hextent.cuts hlaid, hw.parts⟩

/-- What is quoted here is a list whose dotted tail is a list as well. Behind the mark, the whole
quotation is the span of three nodes, and the dotted list is in place all the same. -/
theorem spans_nest_quoted :
    let text := "'(a . (b)) \"é\""
    let a := Value.symbol "a" ⟨2, 3⟩
    let tail := Value.pair .anonymous (.symbol "b" ⟨7, 8⟩) (.nil ⟨8, 9⟩) ⟨6, 9⟩
    let v := Grammar.quoted ⟨0, 1⟩ (.pair .anonymous a tail ⟨1, 10⟩)
    readProgram text = .ok [v, .string "é" ⟨11, 15⟩] ∧
      (∀ w ∈ v.nodes, ∃ before part, part ≠ [] ∧ w.span.Cuts text before part) ∧
      (⟨1, 10⟩ : Span).Nests a tail := by
  intro text a tail v
  have hread : readProgram text = .ok [v, .string "é" ⟨11, 15⟩] := by decide +kernel
  obtain ⟨hnodes, -⟩ := spans_nest hread
  have hv := hnodes v List.mem_cons_self
  have hlist : Value.pair .anonymous a tail ⟨1, 10⟩ ∈ v.nodes := by
    simp [v, tail, Grammar.quoted, Value.nodes, Value.nodesAfter]
  exact ⟨hread, fun w hw => (hv w hw).1, (hv _ hlist).2 _ _ _ _ rfl⟩

end DualScope
