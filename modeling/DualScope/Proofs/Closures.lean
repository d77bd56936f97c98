import DualScope.Form.Shape
import DualScope.Frame
import DualScope.Reader
import DualScope.Value.Stamp

/-!
# The closures in a value

A closure can sit anywhere in a value: in a pair, in the body of another closure,
or, when a program is built by a program, in its formals. `Every p` says that all
of them have the property `p`. Whatever takes values apart or puts them together
keeps it: the chains that calls and forms walk over, the bindings of a call, the
identities a session hands out. What the reader makes has it for any `p`, since
no text reads as a closure.
-/

namespace DualScope

namespace Value

/-- Every closure in the value has the property. -/
def Every (p : Value → Prop) : Value → Prop
  | .pair _ car cdr _ => car.Every p ∧ cdr.Every p
  | .lambda id formals body home span =>
    p (.lambda id formals body home span) ∧ formals.Every p ∧ body.Every p
  | .mu id formals body span =>
    p (.mu id formals body span) ∧ formals.Every p ∧ body.Every p
  | _ => True

variable {p q : Value → Prop}

theorem Every.mono (hpq : ∀ v, p v → q v) {v : Value} (h : v.Every p) : v.Every q := by
  induction v with
  | pair id car cdr span ihcar ihcdr => exact ⟨ihcar h.1, ihcdr h.2⟩
  | lambda id formals body home span ihf ihb => exact ⟨hpq _ h.1, ihf h.2.1, ihb h.2.2⟩
  | mu id formals body span ihf ihb => exact ⟨hpq _ h.1, ihf h.2.1, ihb h.2.2⟩
  | _ => trivial

theorem every_of_all (hp : ∀ v, p v) (v : Value) : v.Every p := by
  induction v with
  | pair id car cdr span ihcar ihcdr => exact ⟨ihcar, ihcdr⟩
  | lambda id formals body home span ihf ihb => exact ⟨hp _, ihf, ihb⟩
  | mu id formals body span ihf ihb => exact ⟨hp _, ihf, ihb⟩
  | _ => trivial

/-- The closures that occur in a value, at any depth. -/
def closures : Value → List Value
  | .pair _ car cdr _ => car.closures ++ cdr.closures
  | .lambda id formals body home span =>
    .lambda id formals body home span :: (formals.closures ++ body.closures)
  | .mu id formals body span => .mu id formals body span :: (formals.closures ++ body.closures)
  | _ => []

theorem every_iff {v : Value} : v.Every p ↔ ∀ c ∈ v.closures, p c := by
  induction v with
  | pair id car cdr span ihcar ihcdr =>
      rw [Every, closures, List.forall_mem_append, ihcar, ihcdr]
  | lambda id formals body home span ihf ihb =>
      rw [Every, closures, List.forall_mem_cons, List.forall_mem_append, ihf, ihb]
  | mu id formals body span ihf ihb =>
      rw [Every, closures, List.forall_mem_cons, List.forall_mem_append, ihf, ihb]
  | _ => simp [Every, closures]

/-! ## Chains of pairs -/

theorem Every.elements {v : Value} (h : v.Every p) : ∀ w ∈ v.elements, w.Every p := by
  induction v with
  | pair id car cdr span ihcar ihcdr =>
      intro w hw
      rw [elements_pair] at hw
      rcases List.mem_cons.mp hw with rfl | hw
      · exact h.1
      · exact ihcdr h.2 w hw
  | _ => intro w hw; cases hw

theorem Every.car? {v w : Value} (h : v.Every p) (hw : v.car? = some w) : w.Every p := by
  cases v with
  | pair id car cdr span => cases hw; exact h.1
  | _ => cases hw

theorem Every.list? {v : Value} {vs : List Value} (h : v.Every p) (hvs : v.list? = some vs) :
    ∀ w ∈ vs, w.Every p := by
  rw [Value.list?] at hvs
  split at hvs
  · cases hvs
    exact h.elements
  · cases hvs

theorem every_ofList {vs : List Value} (h : ∀ v ∈ vs, v.Every p) : (ofList vs).Every p := by
  induction vs with
  | nil => trivial
  | cons v vs ih =>
      exact ⟨h v List.mem_cons_self, ih fun w hw => h w (List.mem_cons_of_mem v hw)⟩

theorem every_ofListFrom (first : Nat) {vs : List Value} (h : ∀ v ∈ vs, v.Every p) :
    (ofListFrom first vs).Every p := by
  unfold ofListFrom
  induction vs with
  | nil => trivial
  | cons v vs ih =>
      exact ⟨h v List.mem_cons_self, ih fun w hw => h w (List.mem_cons_of_mem v hw)⟩

/-! ## Identities -/

theorem every_stamp (text level : Nat) {v : Value} (next : Nat) (h : v.Every p) :
    (v.stamp text level next).1.Every p := by
  induction v generalizing level next with
  | pair id car cdr span ihcar ihcdr =>
      simp only [stamp, atLevel_eq]
      exact ⟨ihcar _ _ h.1, ihcdr _ _ h.2⟩
  | _ => exact h

/-- What a stamp leaves as it was holds of all the stamped values of a text. -/
theorem forall_stampAll {text : Nat} {vs : List Value}
    (hstamp : ∀ v next, p v → p (v.stamp text 0 next).1) (h : ∀ v ∈ vs, p v) :
    ∀ v ∈ stampAll text vs, p v := by
  -- The fold keeps what it has stamped last first, so the invariant is about that list.
  intro v hv
  refine List.foldlRecOn vs _ (motive := fun done : List Value × Nat => ∀ v ∈ done.1, p v) ?_ ?_ v
    (List.mem_reverse.mp hv)
  · exact fun _ h => by cases h
  · intro done hdone w hw u hu
    rcases List.mem_cons.mp hu with rfl | hu
    · exact hstamp w done.2 (h w hw)
    · exact hdone u hu

theorem every_stampAll (text : Nat) {vs : List Value} (h : ∀ v ∈ vs, v.Every p) :
    ∀ v ∈ stampAll text vs, v.Every p :=
  forall_stampAll (fun _ next hv => every_stamp text 0 next hv) h

end Value

/-! ## Operands of forms -/

namespace Form

variable {p : Value → Prop}

theorem every_uncons {operands first rest : Value} (h : operands.Every p)
    (hu : uncons operands = .ok (first, rest)) : first.Every p ∧ rest.Every p := by
  cases operands with
  | pair id car cdr span => cases hu; exact h
  | _ => cases hu

theorem every_bodyExpression {body : Value} (h : body.Every p) : (bodyExpression body).Every p := by
  unfold bodyExpression
  split
  · exact h.1
  · exact ⟨trivial, h⟩

/-- The parts of a procedure come out of the operands, and the formals are checked. -/
theorem procedureParts_ok {operands formals body : Value}
    (hp : procedureParts operands = .ok (formals, body)) :
    ∃ rest, uncons operands = .ok (formals, rest) ∧ checkFormals formals = .ok () ∧
      body = bodyExpression rest := by
  simp only [procedureParts, bind, Except.bind] at hp
  split at hp
  · cases hp
  · split at hp
    · cases hp
    · next parts hu =>
        split at hp
        · cases hp
        · next hf =>
            cases hp
            exact ⟨parts.2, hu, hf, rfl⟩

theorem every_procedureParts {operands formals body : Value} (h : operands.Every p)
    (hp : procedureParts operands = .ok (formals, body)) :
    checkFormals formals = .ok () ∧ formals.Every p ∧ body.Every p := by
  obtain ⟨rest, hu, hf, rfl⟩ := procedureParts_ok hp
  have hparts := every_uncons h hu
  exact ⟨hf, hparts.1, every_bodyExpression hparts.2⟩

end Form

/-! ## Bindings -/

section

variable {p : Value → Prop}

theorem Frame.forall_insert (name : String) {v : Value} {bs : List (String × Value)} (hv : p v)
    (h : ∀ b ∈ bs, p b.2) : ∀ b ∈ Frame.insert name v bs, p b.2 := by
  induction bs with
  | nil => exact List.forall_mem_singleton.mpr hv
  | cons c bs ih =>
      obtain ⟨n, w⟩ := c
      obtain ⟨hw, hbs⟩ := List.forall_mem_cons.mp h
      rw [Frame.insert]
      split
      · exact List.forall_mem_cons.mpr ⟨hv, hbs⟩
      · exact List.forall_mem_cons.mpr ⟨hw, ih hbs⟩

theorem every_matchFormals {formals args : Value} {made bs : List (String × Value)}
    (hargs : args.Every p) (hmade : ∀ b ∈ made, b.2.Every p)
    (h : matchFormals made formals args = .ok (some bs)) : ∀ b ∈ bs, b.2.Every p := by
  fun_induction matchFormals made formals args with
  | case1 => cases h; exact hmade
  | case2 made id name nspan formals span id' v args span' ih =>
      exact ih hargs.2 (Frame.forall_insert name hargs.1 hmade) h
  | case3 => cases h
  | case4 => cases h

theorem every_callBindings {formals args : Value} {span : Span} {bs : List (String × Value)}
    (hargs : args.Every p) (h : callBindings formals args span = .ok bs) :
    ∀ b ∈ bs, b.2.Every p := by
  unfold callBindings at h
  split at h
  · cases h
  · next hm =>
      cases h
      exact every_matchFormals hargs (fun _ hb => by cases hb) hm
  · cases h

theorem Frame.mem_of_find? {f : Frame} {name : String} {v : Value} (h : f.find? name = some v) :
    ∃ b ∈ f.bindings, b.2 = v := by
  rw [Frame.find?] at h
  obtain ⟨l₁, l₂, hl, _⟩ := List.lookup_eq_some_iff.mp h
  exact ⟨(name, v), by simp [hl], rfl⟩

/-- A name means what is bound in a frame on the way up, of which everything holds that goes over
to parents. -/
theorem Frames.lookup_induction {fs : Frames} {P : FrameId → Prop} {i : FrameId} {name : String}
    {v : Value} (h : P i) (hp : ∀ j f p, P j → fs.get? j = some f → f.parent = some p → P p)
    (hv : fs.lookup name i = some v) :
    ∃ j f b, P j ∧ fs.get? j = some f ∧ b ∈ f.bindings ∧ b.2 = v := by
  induction i using Nat.strongRecOn with
  | ind i ih =>
      rw [Frames.lookup.eq_def] at hv
      split at hv
      · cases hv
      · next f hf =>
          split at hv
          · next w hw =>
              cases hv
              obtain ⟨b, hb, hv⟩ := Frame.mem_of_find? hw
              exact ⟨i, f, b, h, hf, hb, hv⟩
          · split at hv
            · cases hv
            · next p hfp =>
                split at hv
                · next hlt => exact ih p hlt (hp i f p h hf hfp) hv
                · cases hv

theorem Frames.bound_of_lookup {fs : Frames} {i : FrameId} {name : String} {v : Value}
    (hv : fs.lookup name i = some v) : ∃ j f b, fs.get? j = some f ∧ b ∈ f.bindings ∧ b.2 = v := by
  obtain ⟨j, f, b, -, hf, hb⟩ :=
    lookup_induction (P := fun _ => True) trivial (fun _ _ _ _ _ _ => trivial) hv
  exact ⟨j, f, b, hf, hb⟩

end

/-! ## What the reader makes -/

namespace Reader

variable {p : Value → Prop}

/-- The closures in the values that a form in the making holds. -/
def Open.Every (p : Value → Prop) : Open → Prop
  | .quote _ => True
  | .list _ items | .dotted _ items _ => ∀ v ∈ items, v.Every p

def Reading.Every (p : Value → Prop) : Reading → Prop
  | .expecting forms => ∀ o ∈ forms, o.Every p
  | .closing _ items tail forms =>
    (∀ v ∈ items, v.Every p) ∧ tail.Every p ∧ ∀ o ∈ forms, o.Every p

def Progress.Every (p : Value → Prop) : Progress → Prop
  | .complete v => v.Every p
  | .reading r => r.Every p

theorem every_chain (stop : Nat) {tail : Value} {items : List Value} (htail : tail.Every p)
    (h : ∀ v ∈ items, v.Every p) : (chain stop tail items).Every p := by
  unfold chain
  induction items generalizing tail with
  | nil => exact htail
  | cons v items ih =>
      refine ih ?_ fun w hw => h w (List.mem_cons_of_mem v hw)
      exact ⟨h v List.mem_cons_self, htail⟩

theorem chain_cons (stop : Nat) (tail item : Value) (items : List Value) :
    ∃ car cdr span, chain stop tail (item :: items) = .pair .anonymous car cdr span := by
  induction items generalizing tail item with
  | nil => exact ⟨_, _, _, rfl⟩
  | cons i items ih => exact ih _ i

theorem every_closeList (bracket close : Span) {items : List Value} {tail : Value}
    (h : ∀ v ∈ items, v.Every p) (htail : tail.Every p) :
    (closeList bracket items tail close).Every p := by
  unfold closeList
  cases items with
  | nil => trivial
  | cons item items =>
      have hc := every_chain close.stop htail h
      obtain ⟨car, cdr, span, heq⟩ := chain_cons close.stop tail item items
      rw [heq] at hc ⊢
      exact hc

theorem every_deliver {v : Value} {forms : List Open} (hv : v.Every p)
    (h : ∀ o ∈ forms, o.Every p) : (deliver v forms).Every p := by
  induction forms generalizing v with
  | nil => exact hv
  | cons o forms ih =>
      have hrest : ∀ o ∈ forms, o.Every p := fun o ho => h o (List.mem_cons_of_mem _ ho)
      have hfirst := h o List.mem_cons_self
      cases o with
      | quote mark => exact ih ⟨trivial, hv, trivial⟩ hrest
      | list bracket items =>
          intro o ho
          rcases List.mem_cons.mp ho with rfl | ho
          · exact List.forall_mem_cons.mpr ⟨hv, hfirst⟩
          · exact hrest o ho
      | dotted bracket items dot => exact ⟨hfirst, hv, hrest⟩

theorem every_feed {r : Reading} {t : Token} {next : Progress} (h : r.Every p)
    (hf : feed r t = .ok next) : next.Every p := by
  unfold feed at hf
  split at hf <;> cases hf
  case h_1 => exact every_deliver (every_closeList _ _ h.1 h.2.1) h.2.2
  case h_3 =>
    have hl := List.forall_mem_cons.mp h
    exact every_deliver (every_closeList _ _ hl.1 trivial) hl.2
  case h_6 =>
    have hl := List.forall_mem_cons.mp h
    exact List.forall_mem_cons.mpr ⟨hl.1, hl.2⟩
  case h_8 | h_9 =>
    refine List.forall_mem_cons.mpr ⟨?_, h⟩
    first
      | exact fun _ hv => by cases hv
      | trivial
  all_goals exact every_deliver trivial h

theorem every_collect {before : List Value} {r : Reading} {ts : List Token}
    (hb : ∀ v ∈ before, v.Every p) (hr : r.Every p) : ∀ v ∈ (collect before r ts).1, v.Every p := by
  fun_induction collect before r ts with
  | case1 before r => exact fun v hv => hb v (List.mem_reverse.mp hv)
  | case2 before r t ts e hf => exact fun v hv => hb v (List.mem_reverse.mp hv)
  | case3 before r t ts v hf ih =>
      exact ih (List.forall_mem_cons.mpr ⟨every_feed hr hf, hb⟩) (fun _ ho => by cases ho)
  | case4 before r t ts r' hf ih => exact ih hb (every_feed hr hf)

/-- No text reads as a closure. -/
theorem every_all (ts : List Token) : ∀ v ∈ (all ts).1, v.Every p :=
  every_collect (fun _ hv => by cases hv) (fun _ ho => by cases ho)

theorem every_readProgram {text : String} {vs : List Value} (h : readProgram text = .ok vs) :
    ∀ v ∈ vs, v.Every p := by
  simp only [readProgram, bind, Except.bind] at h
  split at h
  · cases h
  · next ts _ =>
      rw [program] at h
      split at h
      · next ws hws =>
          cases h
          have hall := every_all (p := p) ts
          rw [hws] at hall
          exact hall
      · cases h

end Reader

end DualScope
