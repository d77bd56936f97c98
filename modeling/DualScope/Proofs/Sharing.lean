import DualScope.Proofs.Closures
import DualScope.Proofs.Equality
import Mathlib.Logic.Function.Basic

/-!
# What identities stand for

Pairs are told apart by their identities alone, so of two pairs with one identity the parts had
better be the same. A *ledger* records the parts of every pair that a program can get hold of.
Values are recorded in it if all their pairs are, and of recorded values those that are the same
are equal.

Pairs come with the identities that are next: those that a program makes one by one, those of a
text when it is taken up. None of them is in the ledger yet, so there is a ledger with the new
pairs in it and all others as they were.

There are pairs that are in no ledger, for they have no identity: the list of the arguments of a
call, and a body of several expressions behind `begin`. No program gets hold of these. A body is
run, and what is *runnable* may be such a pair, of recorded parts.
-/

namespace DualScope

/-! ## Ledgers -/

/-- The parts of pairs by their identities. -/
abbrev Ledger := Identity → Option (Value × Value)

/-- The identity is still to be given out, where the next ones that a program makes are from
`made` on, and the next ones that are read are those of the text from `index` on. -/
def Identity.Due (made text index : Nat) : Identity → Prop
  | .anonymous => False
  | .read t k => text < t ∨ t = text ∧ index ≤ k
  | .made k => made ≤ k

namespace Ledger

def empty : Ledger := fun _ => none

/-- Whatever is recorded in the first ledger is recorded in the second one. -/
def Within (κ κ' : Ledger) : Prop :=
  ∀ id parts, κ id = some parts → κ' id = some parts

/-- Nothing is recorded of identities that are still to be given out. -/
def Free (κ : Ledger) (made text index : Nat) : Prop :=
  ∀ id, id.Due made text index → κ id = none

variable {κ κ₁ κ₂ : Ledger} {made text index : Nat}

theorem Within.refl (κ : Ledger) : κ.Within κ :=
  fun _ _ h => h

theorem Within.trans (h₁ : κ.Within κ₁) (h₂ : κ₁.Within κ₂) : κ.Within κ₂ :=
  fun id parts h => h₂ id parts (h₁ id parts h)

/-- An identity that is given out gets into the ledger, and others are still due. -/
theorem Free.record {id : Identity} {made' index' : Nat} (h : κ.Free made text index)
    (hid : id.Due made text index) (parts : Value × Value)
    (hdue : ∀ a : Identity, a.Due made' text index' → a.Due made text index ∧ a ≠ id) :
    ∃ κ' : Ledger, κ.Within κ' ∧ κ'.Free made' text index' ∧ κ' id = some parts := by
  refine ⟨Function.update κ id (some parts), ?_, ?_, Function.update_self ..⟩
  · intro a other ha
    have hne : a ≠ id := by
      rintro rfl
      rw [h a hid] at ha
      cases ha
    rw [Function.update_of_ne hne]
    exact ha
  · intro a ha
    obtain ⟨hbefore, hne⟩ := hdue a ha
    rw [Function.update_of_ne hne]
    exact h a hbefore

theorem Free.record_made (h : κ.Free made text index) (parts : Value × Value) :
    ∃ κ' : Ledger, κ.Within κ' ∧ κ'.Free (made + 1) text index ∧
      κ' (.made made) = some parts := by
  have hid : Identity.Due made text index (.made made) := Nat.le_refl made
  refine h.record hid parts fun a ha => ?_
  cases a with
  | made k => exact ⟨Nat.le_of_lt ha, fun heq => by cases heq; exact Nat.not_succ_le_self _ ha⟩
  | read t k => exact ⟨ha, nofun⟩
  | anonymous => exact ha.elim

theorem Free.record_read (h : κ.Free made text index) (parts : Value × Value) :
    ∃ κ' : Ledger, κ.Within κ' ∧ κ'.Free made text (index + 1) ∧
      κ' (.read text index) = some parts := by
  have hid : Identity.Due made text index (.read text index) := .inr ⟨rfl, Nat.le_refl index⟩
  refine h.record hid parts fun a ha => ?_
  cases a with
  | made k => exact ⟨ha, nofun⟩
  | read t k =>
      simp only [Identity.Due, ne_eq, Identity.read.injEq] at ha ⊢
      omega
  | anonymous => exact ha.elim

/-- Once a text has been taken up, the identities that are due are those of later ones. -/
theorem Free.text_done (h : κ.Free made text index) : κ.Free made (text + 1) 0 := by
  refine fun a ha => h a ?_
  cases a with
  | made k => exact ha
  | read t k =>
      simp only [Identity.Due] at ha ⊢
      omega
  | anonymous => exact ha

end Ledger

/-! ## Values -/

namespace Value

mutual

/-- Data with all its pairs in the ledger. -/
def Recorded (κ : Ledger) : Value → Prop
  | .pair id car cdr _ => κ id = some (car, cdr) ∧ car.Recorded κ ∧ cdr.Recorded κ
  | .lambda _ formals body _ _ | .mu _ formals body _ => formals.Recorded κ ∧ body.Runnable κ
  | _ => True

/-- An expression that is recorded up to its outermost pair. -/
def Runnable (κ : Ledger) : Value → Prop
  | .pair _ car cdr _ => car.Recorded κ ∧ cdr.Recorded κ
  | .lambda _ formals body _ _ | .mu _ formals body _ => formals.Recorded κ ∧ body.Runnable κ
  | _ => True

end

variable {κ κ' : Ledger} {v w : Value} {vs : List Value}

theorem Recorded.runnable (h : v.Recorded κ) : v.Runnable κ := by
  cases v with
  | pair id car cdr span => exact h.2
  | _ => exact h

theorem mono_both (hκ : κ.Within κ') (v : Value) :
    (v.Recorded κ → v.Recorded κ') ∧ (v.Runnable κ → v.Runnable κ') := by
  induction v with
  | pair id car cdr span ihcar ihcdr =>
      exact ⟨fun h => ⟨hκ _ _ h.1, ihcar.1 h.2.1, ihcdr.1 h.2.2⟩,
        fun h => ⟨ihcar.1 h.1, ihcdr.1 h.2⟩⟩
  | lambda id formals body home span ihf ihb =>
      exact ⟨fun h => ⟨ihf.1 h.1, ihb.2 h.2⟩, fun h => ⟨ihf.1 h.1, ihb.2 h.2⟩⟩
  | mu id formals body span ihf ihb =>
      exact ⟨fun h => ⟨ihf.1 h.1, ihb.2 h.2⟩, fun h => ⟨ihf.1 h.1, ihb.2 h.2⟩⟩
  | _ => exact ⟨fun _ => trivial, fun _ => trivial⟩

theorem Recorded.mono (h : v.Recorded κ) (hκ : κ.Within κ') : v.Recorded κ' :=
  (mono_both hκ v).1 h

theorem Runnable.mono (h : v.Runnable κ) (hκ : κ.Within κ') : v.Runnable κ' :=
  (mono_both hκ v).2 h

theorem recorded_mono (h : ∀ v ∈ vs, v.Recorded κ) (hκ : κ.Within κ') :
    ∀ v ∈ vs, v.Recorded κ' :=
  fun v hv => (h v hv).mono hκ

/-- Recorded values that are the same are equal, unless there is a NaN in them. -/
theorem Recorded.equal_of_same (hv : v.Recorded κ) (hw : w.Recorded κ) (hnan : v.NoNaN)
    (h : v.same w = true) : v.equal w = true := by
  by_cases hpairs : v.car? = none ∨ w.car? = none
  · rwa [same_eq_equal hpairs] at h
  cases v with
  | pair i a b s =>
      cases w with
      | pair j c d t =>
          cases beq_iff_eq.mp h
          have hparts : (a, b) = (c, d) := Option.some_inj.mp (hv.1.symm.trans hw.1)
          cases hparts
          obtain ⟨ha, hb⟩ := hnan
          rw [equal_pair, equal_self_iff.mpr ha, equal_self_iff.mpr hb]
          rfl
      | _ => exact absurd (.inr rfl) hpairs
  | _ => exact absurd (.inl rfl) hpairs

/-! ## Looking at values -/

theorem Recorded.car? (h : v.Recorded κ) (hw : v.car? = some w) : w.Recorded κ := by
  cases v with
  | pair id car cdr span =>
      cases hw
      exact h.2.1
  | _ => cases hw

theorem Recorded.elements (h : v.Recorded κ) : ∀ w ∈ v.elements, w.Recorded κ := by
  induction v with
  | pair id car cdr span _ ih =>
      rw [elements_pair]
      exact List.forall_mem_cons.mpr ⟨h.2.1, ih h.2.2⟩
  | _ => intro w hw; cases hw

/-- The closures in recorded values are recorded. -/
theorem closures_recorded (v : Value) :
    (v.Recorded κ → v.Every (Recorded κ)) ∧ (v.Runnable κ → v.Every (Recorded κ)) := by
  induction v with
  | pair id car cdr span ihcar ihcdr =>
      exact ⟨fun h => ⟨ihcar.1 h.2.1, ihcdr.1 h.2.2⟩, fun h => ⟨ihcar.1 h.1, ihcdr.1 h.2⟩⟩
  | lambda id formals body home span ihf ihb =>
      exact ⟨fun h => ⟨h, ihf.1 h.1, ihb.2 h.2⟩, fun h => ⟨h, ihf.1 h.1, ihb.2 h.2⟩⟩
  | mu id formals body span ihf ihb =>
      exact ⟨fun h => ⟨h, ihf.1 h.1, ihb.2 h.2⟩, fun h => ⟨h, ihf.1 h.1, ihb.2 h.2⟩⟩
  | _ => exact ⟨fun _ => trivial, fun _ => trivial⟩

/-! ## Values that are made -/

section

variable {made text : Nat}

/-- The pairs of a new list get into the ledger. -/
theorem exists_recorded_ofListFrom (hfree : κ.Free made text 0) (h : ∀ v ∈ vs, v.Recorded κ) :
    ∃ κ' : Ledger, κ.Within κ' ∧ κ'.Free (made + vs.length) text 0 ∧
      (ofListFrom made vs).Recorded κ' := by
  induction vs with
  | nil => exact ⟨κ, .refl κ, hfree, trivial⟩
  | cons v vs ih =>
      obtain ⟨hv, hvs⟩ := List.forall_mem_cons.mp h
      obtain ⟨κ₁, hκ₁, hfree₁, htail⟩ := ih hvs
      obtain ⟨κ₂, hκ₂, hfree₂, hparts⟩ := hfree₁.record_made (v, ofListFrom made vs)
      refine ⟨κ₂, hκ₁.trans hκ₂, hfree₂, ?_⟩
      rw [ofListFrom_cons]
      exact ⟨hparts, hv.mono (hκ₁.trans hκ₂), htail.mono hκ₂⟩

/-- The pairs of what is taken up from a text get into the ledger. The closures in it are those
that a host got hold of. -/
theorem exists_recorded_stamp (level : Nat) {index : Nat} (hfree : κ.Free made text index)
    (h : v.Every (Recorded κ)) :
    ∃ κ' : Ledger, κ.Within κ' ∧ κ'.Free made text (v.stamp text level index).2 ∧
      (v.stamp text level index).1.Recorded κ' := by
  induction v generalizing κ level index with
  | pair id car cdr span ihcar ihcdr =>
      simp only [stamp, atLevel_eq]
      obtain ⟨κ₁, hκ₁, hfree₁, hcar⟩ := ihcar (level + 1) hfree h.1
      obtain ⟨κ₂, hκ₂, hfree₂, hcdr⟩ := ihcdr (level + 1) hfree₁ (h.2.mono fun _ hp => hp.mono hκ₁)
      obtain ⟨κ₃, hκ₃, hfree₃, hparts⟩ := hfree₂.record_read (_, _)
      have hκ := hκ₂.trans hκ₃
      exact ⟨κ₃, hκ₁.trans hκ, hfree₃, hparts, hcar.mono hκ, hcdr.mono hκ₃⟩
  | lambda id formals body home span => exact ⟨κ, .refl κ, hfree, h.1⟩
  | mu id formals body span => exact ⟨κ, .refl κ, hfree, h.1⟩
  | _ => exact ⟨κ, .refl κ, hfree, trivial⟩

/-- All values of a text get into the ledger, and the text is done with. -/
theorem exists_recorded_stampAll (hfree : κ.Free made text 0)
    (h : ∀ v ∈ vs, v.Every (Recorded κ)) :
    ∃ κ' : Ledger, κ.Within κ' ∧ κ'.Free made (text + 1) 0 ∧
      ∀ v ∈ stampAll text vs, v.Recorded κ' := by
  -- The fold keeps what it has stamped last first, and goes on with the next index that is free.
  suffices hfold : ∀ {κ : Ledger} {done : List Value} {index : Nat}, κ.Free made text index →
      (∀ v ∈ done, v.Recorded κ) → (∀ v ∈ vs, v.Every (Recorded κ)) →
      let stamped := vs.foldl (fun (p : List Value × Nat) v =>
        ((v.stamp text 0 p.2).1 :: p.1, (v.stamp text 0 p.2).2)) (done, index)
      ∃ κ' : Ledger, κ.Within κ' ∧ κ'.Free made text stamped.2 ∧
        ∀ v ∈ stamped.1, v.Recorded κ' by
    obtain ⟨κ', hκ, hfree', hstamped⟩ := hfold hfree (List.forall_mem_nil _) h
    exact ⟨κ', hκ, hfree'.text_done, fun v hv => hstamped v (List.mem_reverse.mp hv)⟩
  clear h hfree
  induction vs with
  | nil => exact fun hfree hdone _ => ⟨_, .refl _, hfree, hdone⟩
  | cons v vs ih =>
      intro κ done index hfree hdone h
      obtain ⟨hv, hvs⟩ := List.forall_mem_cons.mp h
      obtain ⟨κ₁, hκ₁, hfree₁, hstamp⟩ := exists_recorded_stamp 0 hfree hv
      obtain ⟨κ₂, hκ₂, hfree₂, hstamped⟩ := ih hfree₁
        (List.forall_mem_cons.mpr ⟨hstamp, recorded_mono hdone hκ₁⟩)
        fun w hw => (hvs w hw).mono fun _ hp => hp.mono hκ₁
      exact ⟨κ₂, hκ₁.trans hκ₂, hfree₂, hstamped⟩

end

end Value

/-! ## Operands of forms -/

namespace Form

variable {κ : Ledger} {operands : Value}

theorem recorded_uncons {parts : Value × Value} (h : operands.Runnable κ)
    (hu : uncons operands = .ok parts) : parts.1.Recorded κ ∧ parts.2.Recorded κ := by
  cases operands with
  | pair id car cdr span =>
      cases hu
      exact h
  | _ => cases hu

theorem runnable_bodyExpression {body : Value} (h : body.Recorded κ) :
    (bodyExpression body).Runnable κ := by
  unfold bodyExpression
  split
  · exact h.2.1.runnable
  · exact ⟨trivial, h⟩

theorem runnable_procedureParts {formals body : Value} (h : operands.Runnable κ)
    (hp : procedureParts operands = .ok (formals, body)) :
    formals.Recorded κ ∧ body.Runnable κ := by
  obtain ⟨rest, hu, -, rfl⟩ := procedureParts_ok hp
  have hparts := recorded_uncons h hu
  exact ⟨hparts.1, runnable_bodyExpression hparts.2⟩

end Form

/-! ## Bindings -/

section

variable {κ : Ledger}

/-- The values of the bindings are recorded. -/
def RecordedBindings (κ : Ledger) (bs : List (String × Value)) : Prop :=
  ∀ b ∈ bs, b.2.Recorded κ

theorem recordedBindings_nil : RecordedBindings κ [] :=
  fun _ hb => by cases hb

theorem RecordedBindings.mono {κ' : Ledger} {bs : List (String × Value)}
    (h : RecordedBindings κ bs) (hκ : κ.Within κ') : RecordedBindings κ' bs :=
  fun b hb => (h b hb).mono hκ

theorem RecordedBindings.insert {bs : List (String × Value)} (h : RecordedBindings κ bs)
    (name : String) {v : Value} (hv : v.Recorded κ) :
    RecordedBindings κ (Frame.insert name v bs) :=
  Frame.forall_insert name hv h

theorem recorded_matchFormals {formals args : Value} {made bs : List (String × Value)}
    (hargs : ∀ v ∈ args.elements, v.Recorded κ) (hmade : RecordedBindings κ made)
    (h : matchFormals made formals args = .ok (some bs)) : RecordedBindings κ bs := by
  fun_induction matchFormals made formals args with
  | case1 => cases h; exact hmade
  | case2 made id name nspan formals span id' v args span' ih =>
      rw [Value.elements_pair] at hargs
      obtain ⟨hv, hargs⟩ := List.forall_mem_cons.mp hargs
      exact ih hargs (hmade.insert name hv) h
  | case3 => cases h
  | case4 => cases h

theorem recorded_callBindings {formals args : Value} {span : Span} {bs : List (String × Value)}
    (hargs : ∀ v ∈ args.elements, v.Recorded κ)
    (h : callBindings formals args span = .ok bs) : RecordedBindings κ bs := by
  unfold callBindings at h
  split at h
  · cases h
  · next hm =>
      cases h
      exact recorded_matchFormals hargs recordedBindings_nil hm
  · cases h

end

end DualScope
