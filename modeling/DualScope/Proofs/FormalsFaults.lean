import DualScope.Proofs.Malformed

/-!
# Which fault of formals is reported

Formals can be wrong in many places at once: elements that are no symbols, symbols that were there
before, an end that is not that of a list. One fault is reported, and this says which: the first
from the left, where an element is at fault for itself or for what stands before it, and the end
comes behind all elements.

The check walks over the formals with the names it has seen. At each pair two things are known of
the elements that it has passed: they are symbols with just these names, and none of them is at
fault. So a symbol equals an earlier element exactly if its name is among those seen, and the first
element that stops the walk is the first at fault.
-/

namespace DualScope

theorem Value.eq_symbol_of_kind {v : Value} (h : v.kind = .symbol) :
    ∃ name span, v = .symbol name span := by
  cases v with
  | symbol name span => exact ⟨name, span, rfl⟩
  | _ => cases h

/-- Only symbols of the same name equal a symbol. -/
theorem Value.symbol_equal_iff {name : String} {span : Span} {v : Value} :
    (Value.symbol name span).equal v = true ↔ ∃ vspan, v = .symbol name vspan := by
  rw [equal_eq_equalAtom (.inl rfl)]
  cases v with
  | symbol name' vspan =>
      rw [equalAtom, beq_iff_eq, eq_comm]
      simp
  | _ => simp [equalAtom]

namespace Form

/-! ## Elements at fault -/

/-- The element at the place is no symbol, or it equals one before it. -/
structure OffendsAt (elements : List Value) (i : Nat) (v : Value) : Prop where
  get : elements[i]? = some v
  fault : v.kind ≠ .symbol ∨ ∃ w ∈ elements.take i, v.equal w = true

/-- Of the elements at fault this is the one at the least place. -/
structure FirstOffence (elements : List Value) (i : Nat) (v : Value) : Prop
    extends OffendsAt elements i v where
  least : ∀ j < i, ∀ w, ¬ OffendsAt elements j w

/-- What is to be said of formals with these elements that end in this value. -/
inductive Judged (elements : List Value) (last : Value) : Except EvalError Unit → Prop
  | passed : (∀ i v, ¬ OffendsAt elements i v) → last.isNil = true → Judged elements last (.ok ())
  | notSymbol {i : Nat} {v : Value} : FirstOffence elements i v → v.kind ≠ .symbol →
    Judged elements last (.error (.badFormal v))
  | repeated {i : Nat} {name : String} {span : Span} :
    FirstOffence elements i (.symbol name span) →
      Judged elements last (.error (.duplicateFormal name span))
  | notList : (∀ i v, ¬ OffendsAt elements i v) → last.isNil = false →
    Judged elements last (.error (.badFormal last))

variable {elements before : List Value} {last v w : Value} {i j : Nat}

theorem FirstOffence.unique (h : FirstOffence elements i v) (h' : FirstOffence elements j w) :
    v = w := by
  have hij : i = j := Nat.le_antisymm
    (Nat.not_lt.mp fun hlt => h.least j hlt w h'.toOffendsAt)
    (Nat.not_lt.mp fun hlt => h'.least i hlt v h.toOffendsAt)
  subst hij
  exact Option.some_inj.mp (h.get.symm.trans h'.get)

/-- No two rules say different things of the same formals. -/
theorem Judged.unique {r r' : Except EvalError Unit} (h : Judged elements last r)
    (h' : Judged elements last r') : r = r' := by
  cases h with
  | passed hclean hlast =>
      cases h' with
      | passed => rfl
      | notSymbol hfirst | repeated hfirst => exact absurd hfirst.toOffendsAt (hclean _ _)
      | notList _ hend => exact absurd hlast (Bool.eq_false_iff.mp hend)
  | notSymbol hfirst hkind =>
      cases h' with
      | notSymbol hfirst' => rw [hfirst.unique hfirst']
      | repeated hfirst' => exact absurd (congrArg Value.kind (hfirst.unique hfirst')) hkind
      | passed hclean | notList hclean => exact absurd hfirst.toOffendsAt (hclean _ _)
  | repeated hfirst =>
      cases h' with
      | notSymbol hfirst' hkind =>
          exact absurd (congrArg Value.kind (hfirst'.unique hfirst)) hkind
      | repeated hfirst' =>
          cases hfirst.unique hfirst'
          rfl
      | passed hclean | notList hclean => exact absurd hfirst.toOffendsAt (hclean _ _)
  | notList hclean hend =>
      cases h' with
      | passed _ hlast => exact absurd hlast (Bool.eq_false_iff.mp hend)
      | notSymbol hfirst | repeated hfirst => exact absurd hfirst.toOffendsAt (hclean _ _)
      | notList => rfl

/-! ## The walk -/

/-- The check of a chain with these elements has passed some of them, with these names. -/
structure Passed (elements before : List Value) (seen : List String) (rest : Value) : Prop where
  eq_append : elements = before ++ rest.elements
  mem_seen : ∀ name, name ∈ seen ↔ ∃ span, .symbol name span ∈ before
  clean : ∀ j < before.length, ∀ v, ¬ OffendsAt elements j v

namespace Passed

variable {seen : List String} {rest : Value} {id : Identity} {name : String} {nspan span : Span}

theorem start (formals : Value) : Passed formals.elements [] [] formals where
  eq_append := rfl
  mem_seen _ := iff_of_false List.not_mem_nil fun ⟨_, h⟩ => List.not_mem_nil h
  clean _ hj := by cases hj

/-- The next element is at fault for what it is, or for one of those passed. -/
theorem offendsAt_iff (h : Passed elements before seen (.pair id v rest span)) :
    OffendsAt elements before.length w ↔
      w = v ∧ (v.kind ≠ .symbol ∨ ∃ u ∈ before, v.equal u = true) := by
  have hget : elements[before.length]? = some v := by
    rw [h.eq_append, Value.elements_pair]
    simp
  have htake : elements.take before.length = before := by
    rw [h.eq_append, List.take_left]
  constructor
  · intro hw
    cases Option.some_inj.mp (hget.symm.trans hw.get)
    exact ⟨rfl, htake ▸ hw.fault⟩
  · rintro ⟨rfl, hfault⟩
    exact ⟨hget, htake.symm ▸ hfault⟩

/-- Of those passed a symbol equals one exactly if its name has been seen. -/
theorem equal_iff_mem (h : Passed elements before seen rest) :
    (∃ u ∈ before, (Value.symbol name nspan).equal u = true) ↔ name ∈ seen := by
  rw [h.mem_seen]
  constructor
  · rintro ⟨u, hu, hequal⟩
    obtain ⟨uspan, rfl⟩ := Value.symbol_equal_iff.mp hequal
    exact ⟨uspan, hu⟩
  · rintro ⟨uspan, hu⟩
    exact ⟨_, hu, Value.symbol_equal_iff.mpr ⟨uspan, rfl⟩⟩

/-- A symbol that is new is passed. -/
theorem step (h : Passed elements before seen (.pair id (.symbol name nspan) rest span))
    (hname : name ∉ seen) :
    Passed elements (before ++ [.symbol name nspan]) (name :: seen) rest where
  eq_append := by rw [h.eq_append, Value.elements_pair, List.append_assoc, List.singleton_append]
  mem_seen n := by
    rw [List.mem_cons, h.mem_seen]
    simp [or_comm, exists_or]
  clean j hj w hw := by
    rw [List.length_append, List.length_singleton, Nat.lt_succ_iff_lt_or_eq] at hj
    rcases hj with hj | rfl
    · exact h.clean j hj w hw
    · obtain ⟨-, hkind | hequal⟩ := h.offendsAt_iff.mp hw
      · exact hkind rfl
      · exact hname (h.equal_iff_mem.mp hequal)

/-- Where no pair is left, all elements have been passed. -/
theorem no_offence (h : Passed elements before seen rest) (hrest : rest.elements = []) (i : Nat)
    (v : Value) : ¬ OffendsAt elements i v := by
  intro hv
  have hi : i < before.length := by
    have hlt := (List.getElem?_eq_some_iff.mp hv.get).1
    rwa [h.eq_append, hrest, List.append_nil] at hlt
  exact h.clean i hi v hv

theorem judged (h : Passed elements before seen rest) :
    Judged elements rest.ending (checkFormalsAfter seen rest) := by
  -- The elements and what they end in stay the same along the walk: an element moves from the rest
  -- to those passed. So what is said at the end is said of the formals as a whole.
  fun_induction checkFormalsAfter seen rest generalizing before with
  | case1 seen span => exact .passed (h.no_offence rfl) rfl
  | case2 seen id name nspan rest span hname =>
      exact .repeated ⟨h.offendsAt_iff.mpr ⟨rfl, .inr (h.equal_iff_mem.mpr hname)⟩, h.clean⟩
  | case3 seen id name nspan rest span hname ih => exact ih (h.step hname)
  | case4 seen id formal rest span hformal =>
      have hkind : formal.kind ≠ .symbol := by
        intro hsymbol
        obtain ⟨name, nspan, rfl⟩ := Value.eq_symbol_of_kind hsymbol
        exact hformal name nspan rfl
      exact .notSymbol ⟨h.offendsAt_iff.mpr ⟨rfl, .inl hkind⟩, h.clean⟩ hkind
  | case5 seen v hnil hsymbol hpair =>
      cases v with
      | nil span => exact absurd rfl (hnil span)
      | pair id car cdr span => exact absurd rfl (hpair id car cdr span)
      | _ => exact .notList (h.no_offence rfl) rfl

end Passed

/-! ## The check -/

theorem checkFormals_ok_iff {formals : Value} :
    checkFormals formals = .ok () ↔ formals.AreFormals := by
  refine ⟨symbols_of_checkFormals, ?_⟩
  rintro ⟨names, hsymbols, hnodup⟩
  exact checkFormalsAfter_symbols hsymbols hnodup fun _ _ h => by cases h

/-- Formals pass the check if they are a proper list of symbols that differ from one another, and
only then. Otherwise the first element is reported that is no symbol or equals an earlier one: as it
stands, or as a name that is there again, with the span of the element. If there is no such element
the formals do not end in the empty list, and what they end in is reported as it stands. -/
theorem formals_judged (formals : Value) :
    (checkFormals formals = .ok () ↔ formals.AreFormals) ∧
      ∀ r, checkFormals formals = r ↔ Judged formals.elements formals.ending r := by
  have hjudged : Judged formals.elements formals.ending (checkFormals formals) :=
    (Passed.start formals).judged
  refine ⟨checkFormals_ok_iff, fun r => ⟨?_, hjudged.unique⟩⟩
  rintro rfl
  exact hjudged

/-- In `(a a #t)` the symbol that is there again comes first, in `(a #t a)` what is no symbol, and
`(a . a)` has only one element. -/
example :
    let a (start : Nat) : Value := .symbol "a" ⟨start, start + 1⟩
    let truth (start : Nat) : Value := .boolean true ⟨start, start + 2⟩
    checkFormals (.ofList [a 1, a 3, truth 5]) = .error (.duplicateFormal "a" ⟨3, 4⟩) ∧
      checkFormals (.ofList [a 1, truth 3, a 6]) = .error (.badFormal (truth 3)) ∧
      checkFormals (.pair .anonymous (a 1) (a 5) ⟨1, 7⟩) = .error (.badFormal (a 5)) :=
  ⟨rfl, rfl, rfl⟩

end Form

end DualScope
