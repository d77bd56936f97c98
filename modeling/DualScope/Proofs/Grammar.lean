import DualScope.Reader

/-!
# The grammar of data

Tokens are read by this grammar:

    datum ::= symbol | number | boolean | string
            | ' datum
            | ( datum* )
            | ( datum+ . datum )

Every datum has a tree, and with it the spans of all parts: a pair of a list runs from
its first part to the closing bracket, the outermost one covers both brackets.

The reader accepts exactly the grammar. That what it accepts is a datum is an invariant
of one token: the tokens so far have opened the forms on the stack, each with the data
that it holds, and a value that is handed down the stack completes a form. That it
accepts every datum is an induction over the derivation, for any stack that the datum is
read on and any tokens behind it. The latter makes all else a consequence: since the
reader stops at the end of the datum whatever follows, no datum goes on after another
one ends, and no tokens have two trees.
-/

namespace DualScope

namespace Grammar

/-! ## Derivations -/

/-- The values in a chain that ends in `tail`, each pair up to `stop`. -/
def chain (stop : Nat) (tail : Value) : List Value → Value
  | [] => tail
  | v :: vs => .pair .anonymous v (chain stop tail vs) ⟨v.span.start, stop⟩

/-- The tree of a list between brackets. -/
def bracketed (bracket close : Span) (tail : Value) : List Value → Value
  | [] => .nil (bracket.merge close)
  | v :: vs => .pair .anonymous v (chain close.stop tail vs) (bracket.merge close)

/-- The tree of `(quote v)`, where `v` is behind a quote mark. -/
def quoted (mark : Span) (v : Value) : Value :=
  let span := mark.merge v.span
  .pair .anonymous (.symbol "quote" mark) (.pair .anonymous v (.nil span) span) span

/-- The tree of a token that is a datum by itself. -/
def atom? (t : Token) : Option Value :=
  match t.kind with
  | .symbol name => some (.symbol name t.span)
  | .number x => some (.number x t.span)
  | .boolean b => some (.boolean b t.span)
  | .string s => some (.string s t.span)
  | _ => none

mutual

/-- The tokens are a datum with the given tree. -/
inductive Datum : List Token → Value → Prop
  | atom {t : Token} {v : Value} : atom? t = some v → Datum [t] v
  | quote (mark : Span) {ts : List Token} {v : Value} :
    Datum ts v → Datum (⟨.quote, mark⟩ :: ts) (quoted mark v)
  | list (bracket close : Span) {ts : List Token} {vs : List Value} :
    Data ts vs →
      Datum (⟨.openParen, bracket⟩ :: (ts ++ [⟨.closeParen, close⟩]))
        (bracketed bracket close (.nil close) vs)
  | dotted (bracket dot close : Span) {ts us : List Token} {vs : List Value} {tail : Value} :
    Data ts vs → vs ≠ [] → Datum us tail →
      Datum (⟨.openParen, bracket⟩ :: (ts ++ ⟨.dot, dot⟩ :: (us ++ [⟨.closeParen, close⟩])))
        (bracketed bracket close tail vs)

/-- The tokens are a row of data with the given trees. -/
inductive Data : List Token → List Value → Prop
  | nil : Data [] []
  | cons {ts us : List Token} {v : Value} {vs : List Value} :
    Datum ts v → Data us vs → Data (ts ++ us) (v :: vs)

end

theorem Datum.ne_nil {ts : List Token} {v : Value} (h : Datum ts v) : ts ≠ [] := by
  cases h <;> exact List.cons_ne_nil _ _

theorem Data.concat {ts us : List Token} {vs : List Value} {v : Value} (h : Data ts vs)
    (hv : Datum us v) : Data (ts ++ us) (vs ++ [v]) := by
  induction vs generalizing ts with
  | nil =>
      cases h
      have hone := Data.cons hv .nil
      rw [List.append_nil] at hone
      exact hone
  | cons w vs ih =>
      cases h with
      | cons hw hvs =>
          rw [List.append_assoc]
          exact .cons hw (ih hvs)

end Grammar

namespace Reader

open Grammar (Datum Data)

/-! ## The trees that the reader builds -/

theorem chain_reverse (stop : Nat) (tail : Value) (vs : List Value) :
    chain stop tail vs.reverse = Grammar.chain stop tail vs := by
  unfold chain
  rw [List.foldl_reverse]
  induction vs with
  | nil => rfl
  | cons v vs ih => rw [List.foldr_cons, ih, Grammar.chain]

theorem closeList_eq (bracket close : Span) (tail : Value) (items : List Value) :
    closeList bracket items tail close =
      Grammar.bracketed bracket close tail items.reverse := by
  unfold closeList
  obtain ⟨vs, rfl⟩ : ∃ vs : List Value, items = vs.reverse := ⟨items.reverse, by simp⟩
  rw [List.reverse_reverse]
  cases vs with
  | nil => rfl
  | cons v vs =>
      rw [chain_reverse]
      simp [Grammar.chain, Grammar.bracketed, Value.withSpan]

/-! ## What is accepted is a datum -/

/-- The tokens have opened the forms. -/
inductive Opens : List Token → List Open → Prop
  | nil : Opens [] []
  | quote (mark : Span) {ts : List Token} {forms : List Open} :
    Opens ts forms → Opens (ts ++ [⟨.quote, mark⟩]) (.quote mark :: forms)
  | list (bracket : Span) {ts us : List Token} {items : List Value} {forms : List Open} :
    Opens ts forms → Data us items.reverse →
      Opens (ts ++ ⟨.openParen, bracket⟩ :: us) (.list bracket items :: forms)
  | dotted (bracket dot : Span) {ts us : List Token} {items : List Value} {forms : List Open} :
    Opens ts forms → Data us items.reverse → items ≠ [] →
      Opens (ts ++ ⟨.openParen, bracket⟩ :: (us ++ [⟨.dot, dot⟩])) (.dotted bracket items dot :: forms)

/-- The reader is there when it has read the tokens. -/
def Reading.Follows (ts : List Token) : Reading → Prop
  | .expecting forms => Opens ts forms
  | .closing bracket items tail forms =>
    ∃ before us dot ws, ts = before ++ ⟨.openParen, bracket⟩ :: (us ++ ⟨.dot, dot⟩ :: ws) ∧
      Opens before forms ∧ Data us items.reverse ∧ items ≠ [] ∧ Datum ws tail

def Progress.Follows (ts : List Token) : Progress → Prop
  | .complete v => Datum ts v
  | .reading r => r.Follows ts

theorem deliver_follows {ts us : List Token} {forms : List Open} {v : Value}
    (h : Opens ts forms) (hv : Datum us v) : (deliver v forms).Follows (ts ++ us) := by
  induction h generalizing us v with
  | nil => exact hv
  | quote mark _ ih =>
      rw [List.append_assoc]
      exact ih (.quote mark hv)
  | list bracket hopens hdata _ =>
      rw [List.append_assoc]
      refine .list bracket hopens ?_
      rw [List.reverse_cons]
      exact hdata.concat hv
  | dotted bracket dot hopens hdata hne _ =>
      exact ⟨_, _, dot, us, by simp, hopens, hdata, hne, hv⟩

/-- One token keeps the reader on the grammar. -/
theorem feed_follows {ts : List Token} {r : Reading} {t : Token} {next : Progress}
    (h : r.Follows ts) (hf : feed r t = .ok next) : next.Follows (ts ++ [t]) := by
  obtain ⟨kind, span⟩ := t
  unfold feed at hf
  -- The tokens that are faults where the reader is are gone with the second step.
  split at hf <;> cases hf
  case h_1 bracket items tail forms hkind =>
    cases hkind
    obtain ⟨before, us, dot, ws, rfl, hopens, hdata, hne, htail⟩ := h
    rw [closeList_eq]
    have hlist := Datum.dotted bracket dot span hdata (by simpa using hne) htail
    simpa using deliver_follows hopens hlist
  case h_3 bracket items forms hkind =>
    cases hkind
    cases h with
    | list _ hopens hdata =>
        rw [closeList_eq]
        simpa using deliver_follows hopens (Datum.list bracket span hdata)
  case h_6 bracket item items forms hkind =>
    cases hkind
    cases h with
    | list _ hopens hdata =>
        have hdotted := Opens.dotted bracket span hopens hdata (List.cons_ne_nil _ _)
        rw [List.append_assoc]
        exact hdotted
  case h_8 hkind =>
    cases hkind
    exact .list span h .nil
  case h_9 hkind =>
    cases hkind
    exact .quote span h
  all_goals
    next hkind =>
    cases hkind
    exact deliver_follows h (.atom rfl)

/-- What is read is a datum, with the tokens that led to where the reader began. -/
theorem finish_sound {before ts rest : List Token} {r : Reading} {v : Value}
    (h : r.Follows before) (hf : finish r ts = .ok (v, rest)) :
    ∃ used, ts = used ++ rest ∧ Datum (before ++ used) v := by
  induction ts generalizing before r with
  | nil => cases hf
  | cons t ts ih =>
      rw [finish] at hf
      cases hfeed : feed r t with
      | error e =>
          rw [hfeed] at hf
          cases hf
      | ok next =>
          rw [hfeed] at hf
          have hnext := feed_follows h hfeed
          cases next with
          | complete w =>
              cases hf
              exact ⟨[t], rfl, hnext⟩
          | reading r' =>
              obtain ⟨used, rfl, hv⟩ := ih hnext hf
              refine ⟨t :: used, rfl, ?_⟩
              rw [List.append_assoc] at hv
              exact hv

theorem next_sound {ts rest : List Token} {v : Value} (h : next ts = .ok (v, rest)) :
    ∃ used, ts = used ++ rest ∧ Datum used v :=
  finish_sound (show start.Follows [] from .nil) h

/-! ## Every datum is accepted -/

theorem feed_atom {t : Token} {v : Value} (h : Grammar.atom? t = some v) (forms : List Open) :
    feed (.expecting forms) t = .ok (deliver v forms) := by
  obtain ⟨kind, span⟩ := t
  cases kind <;> cases h <;> simp [feed]

theorem feed_openParen (bracket : Span) (forms : List Open) :
    feed (.expecting forms) ⟨.openParen, bracket⟩ =
      .ok (.reading (.expecting (.list bracket [] :: forms))) := by
  simp [feed]

theorem feed_quote (mark : Span) (forms : List Open) :
    feed (.expecting forms) ⟨.quote, mark⟩ =
      .ok (.reading (.expecting (.quote mark :: forms))) := by
  simp [feed]

theorem feed_dot (bracket dot : Span) {items : List Value} (h : items ≠ []) (forms : List Open) :
    feed (.expecting (.list bracket items :: forms)) ⟨.dot, dot⟩ =
      .ok (.reading (.expecting (.dotted bracket items dot :: forms))) := by
  cases items with
  | nil => exact absurd rfl h
  | cons item items => rfl

/-- What the reader makes of the tokens behind those that brought it there. -/
def Progress.finish : Progress → List Token → Except ReadError (Value × List Token)
  | .complete v, ts => .ok (v, ts)
  | .reading r, ts => Reader.finish r ts

theorem finish_of_feed {r : Reading} {t : Token} {next : Progress} (h : feed r t = .ok next)
    (ts : List Token) : finish r (t :: ts) = next.finish ts := by
  rw [finish, h]
  cases next <;> rfl

mutual

theorem finish_datum {ts : List Token} {v : Value} (h : Datum ts v) (forms : List Open)
    (rest : List Token) : finish (.expecting forms) (ts ++ rest) = (deliver v forms).finish rest :=
  match h with
  | .atom hv => finish_of_feed (feed_atom hv forms) rest
  | .quote mark hv => by
      rw [List.cons_append, finish_of_feed (feed_quote mark forms)]
      exact finish_datum hv (.quote mark :: forms) rest
  | .list bracket close hdata => by
      rw [List.cons_append, finish_of_feed (feed_openParen bracket forms), List.append_assoc]
      refine (finish_data hdata bracket [] forms _).trans ?_
      rw [List.singleton_append, finish_of_feed rfl, closeList_eq]
      simp
  | .dotted bracket dot close hdata hne htail => by
      rw [List.cons_append, finish_of_feed (feed_openParen bracket forms), List.append_assoc]
      refine (finish_data hdata bracket [] forms _).trans ?_
      rw [List.cons_append, finish_of_feed (feed_dot bracket dot (by simpa using hne) forms),
        List.append_assoc]
      refine (finish_datum htail _ _).trans ?_
      refine (finish_of_feed rfl rest).trans ?_
      rw [closeList_eq]
      simp

theorem finish_data {ts : List Token} {vs : List Value} (h : Data ts vs) (bracket : Span)
    (items : List Value) (forms : List Open) (rest : List Token) :
    finish (.expecting (.list bracket items :: forms)) (ts ++ rest) =
      finish (.expecting (.list bracket (vs.reverse ++ items) :: forms)) rest :=
  match h with
  | .nil => rfl
  | .cons hv hvs => by
      rw [List.append_assoc, finish_datum hv]
      refine (finish_data hvs bracket _ forms rest).trans ?_
      simp

end

/-- A datum is read off the front of the tokens, whatever follows it. -/
theorem next_datum {ts : List Token} {v : Value} (h : Datum ts v) (rest : List Token) :
    next (ts ++ rest) = .ok (v, rest) :=
  finish_datum h [] rest

/-! ## Rows of data -/

theorem deliver_ne_start (v : Value) (forms : List Open) : deliver v forms ≠ .reading start := by
  induction forms generalizing v with
  | nil => exact fun h => by cases h
  | cons o forms ih =>
      cases o with
      | quote mark => exact ih _
      | list bracket items => exact fun h => by cases h
      | dotted bracket items dot => exact fun h => by cases h

/-- No token leads back to where nothing has been read. -/
theorem feed_ne_start (r : Reading) (t : Token) : feed r t ≠ .ok (.reading start) := by
  intro h
  unfold feed at h
  split at h
  all_goals first
    | exact deliver_ne_start _ _ (Except.ok.inj h)
    | cases h

/-- To collect expressions is to read one after another. -/
theorem collect_eq {r : Reading} {ts : List Token} (h : r = start → ts ≠ [])
    (before : List Value) :
    collect before r ts =
      match finish r ts with
      | .ok (v, rest) => collect (v :: before) start rest
      | .error e => (before.reverse, some e) := by
  induction ts generalizing r with
  | nil =>
      have hr : r ≠ start := fun hr => h hr rfl
      rw [collect, if_neg hr, finish]
  | cons t ts ih =>
      rw [collect, finish]
      cases hfeed : feed r t with
      | error e => rfl
      | ok next =>
          cases next with
          | complete v => rfl
          | reading r' =>
              refine ih fun hr' => ?_
              rw [hr'] at hfeed
              exact absurd hfeed (feed_ne_start r t)

theorem collect_data {ts : List Token} {vs : List Value} (h : Data ts vs) (before : List Value) :
    collect before start ts = (before.reverse ++ vs, none) := by
  induction vs generalizing ts before with
  | nil =>
      cases h
      simp [collect]
  | cons v vs ih =>
      cases h with
      | cons hv hvs =>
          rw [collect_eq fun _ => by simp [hv.ne_nil]]
          rw [show finish start _ = _ from next_datum hv _]
          simpa using ih hvs (v :: before)

/-- What is collected are data, and if the tokens do not end with them there is a fault. -/
theorem collect_cases (before : List Value) (ts : List Token) :
    ∃ ws used rest, (collect before start ts).1 = before.reverse ++ ws ∧ ts = used ++ rest ∧
      Data used ws ∧
        match (collect before start ts).2 with
        | none => rest = []
        | some e => finish start rest = .error e := by
  induction hn : ts.length using Nat.strongRecOn generalizing ts before with
  | ind n ih =>
      cases ts with
      | nil => exact ⟨[], [], [], by simp [collect], rfl, .nil, rfl⟩
      | cons t ts =>
          rw [collect_eq fun _ => List.cons_ne_nil t ts]
          cases hf : finish start (t :: ts) with
          | error e => exact ⟨[], [], t :: ts, by simp, rfl, .nil, hf⟩
          | ok read =>
              obtain ⟨v, rest⟩ := read
              obtain ⟨used, hused, hv⟩ := next_sound hf
              have hlt : rest.length < n := by
                have hpos := List.length_pos_iff.mpr hv.ne_nil
                rw [← hn, hused, List.length_append]
                omega
              obtain ⟨ws, used', rest', hcollect, rfl, hws, hfault⟩ :=
                ih _ hlt (v :: before) rest rfl
              refine ⟨v :: ws, used ++ used', rest', ?_, ?_, .cons hv hws, hfault⟩
              · rw [hcollect]
                simp
              · rw [hused, List.append_assoc]

theorem collect_sound {ts : List Token} {before vs : List Value}
    (h : collect before start ts = (vs, none)) : ∃ ws, vs = before.reverse ++ ws ∧ Data ts ws := by
  obtain ⟨ws, used, rest, hvs, hts, hws, hrest⟩ := collect_cases before ts
  rw [h] at hvs hrest
  cases hrest
  rw [List.append_nil] at hts
  rw [hts]
  exact ⟨ws, hvs, hws⟩

/-! ## The language that the reader accepts -/

theorem program_eq_ok_iff {ts : List Token} {vs : List Value} :
    program ts = .ok vs ↔ Data ts vs := by
  constructor
  · intro h
    unfold program at h
    split at h
    · next hall =>
        cases h
        obtain ⟨ws, rfl, hws⟩ := collect_sound hall
        exact hws
    · cases h
  · intro h
    rw [program, all, collect_data h]
    rfl

theorem single_eq_ok_iff {ts : List Token} {v : Value} : single ts = .ok v ↔ Datum ts v := by
  constructor
  · intro h
    unfold single at h
    split at h
    · cases h
    · next hnext =>
        cases h
        obtain ⟨used, rfl, hv⟩ := next_sound hnext
        rw [List.append_nil]
        exact hv
    · cases h
  · intro h
    have hnext := next_datum h []
    rw [List.append_nil] at hnext
    rw [single, hnext]

end Reader

namespace Grammar

theorem Datum.unique {ts : List Token} {v w : Value} (h : Datum ts v) (h' : Datum ts w) : w = v :=
  Except.ok.inj ((Reader.single_eq_ok_iff.mpr h').symm.trans (Reader.single_eq_ok_iff.mpr h))

theorem Datum.eq_of_prefix {ts us : List Token} {v w : Value} (h : Datum ts v) (h' : Datum us w)
    (hus : us <+: ts) : us = ts := by
  obtain ⟨more, rfl⟩ := hus
  have hread := Reader.next_datum h []
  rw [List.append_nil, Reader.next_datum h' more] at hread
  cases hread
  rw [List.append_nil]

end Grammar

open Grammar (Datum Data) in
/-- The reader accepts the grammar and nothing else, and stops where a datum ends. Hence
tokens have one tree at most, and no datum is the beginning of another one. -/
theorem reader_accepts_grammar (ts : List Token) :
    (∀ vs, Reader.program ts = .ok vs ↔ Data ts vs) ∧
      (∀ v, Reader.single ts = .ok v ↔ Datum ts v) ∧
      ∀ v, Datum ts v → (∀ rest, Reader.next (ts ++ rest) = .ok (v, rest)) ∧
        (∀ w, Datum ts w → w = v) ∧ ∀ us w, us <+: ts → Datum us w → us = ts := by
  refine ⟨fun vs => Reader.program_eq_ok_iff, fun v => Reader.single_eq_ok_iff, fun v hv => ?_⟩
  refine ⟨Reader.next_datum hv, fun w hw => hv.unique hw, fun us w hus hw => ?_⟩
  exact hv.eq_of_prefix hw hus

section

open Grammar

/-- The tokens of `('x . #t)`. -/
def dottedTokens : List Token :=
  [⟨.openParen, ⟨0, 1⟩⟩, ⟨.quote, ⟨1, 2⟩⟩, ⟨.symbol "x", ⟨2, 3⟩⟩, ⟨.dot, ⟨4, 5⟩⟩,
    ⟨.boolean true, ⟨6, 8⟩⟩, ⟨.closeParen, ⟨8, 9⟩⟩]

def dottedTree : Value :=
  .pair .anonymous (quoted ⟨1, 2⟩ (.symbol "x" ⟨2, 3⟩)) (.boolean true ⟨6, 8⟩) ⟨0, 9⟩

theorem dottedTokens_datum : Datum dottedTokens dottedTree :=
  .dotted ⟨0, 1⟩ ⟨4, 5⟩ ⟨8, 9⟩ (.cons (.quote ⟨1, 2⟩ (.atom rfl)) .nil) (List.cons_ne_nil _ _)
    (.atom rfl)

theorem reader_accepts_grammar_dotted :
    Reader.single dottedTokens = .ok dottedTree ∧
      Reader.next (dottedTokens ++ dottedTokens) = .ok (dottedTree, dottedTokens) ∧
      dottedTree = dottedTree ∧ dottedTokens = dottedTokens :=
  have h := reader_accepts_grammar dottedTokens
  have hv := h.2.2 dottedTree dottedTokens_datum
  ⟨(h.2.1 dottedTree).mpr dottedTokens_datum, hv.1 dottedTokens, hv.2.1 _ dottedTokens_datum,
    hv.2.2 _ _ (List.prefix_refl _) dottedTokens_datum⟩

end

end DualScope
