import DualScope.Primitive.Call
import DualScope.Proofs.Likeness
import Mathlib

/-!
# Equality is structural

Two values are compared in rounds. A round takes up the first two of what is still to be
compared: if both are pairs their parts take their place, and if not the comparison goes on
without them or ends. There is less after each round, so an answer comes after as many rounds as
the first value has nodes at the latest, and one more that finds nothing left.

The answer is what a definition by recursion on the values says, and that is what proofs go by.
What is left are questions about atoms. Of these only numbers need a closer look, since NaN does
not equal itself. So equality is symmetric and transitive, and a value equals itself exactly if
there is no NaN in it.
-/

namespace DualScope

/-! ## Names of primitives -/

theorem Primitive.name_injective : Function.Injective name := by
  suffices hfind : ∀ p : Primitive, all.find? (·.name = p.name) = some p by
    intro p q hpq
    have hq := hfind q
    rw [← hpq, hfind p] at hq
    exact Option.some_inj.mp hq
  intro p
  cases p with
  | arithmetic op | comparison op | test op => cases op <;> decide +kernel
  | _ => decide +kernel

namespace Value

/-! ## Rounds -/

/-- One round of the comparison: the answer, or what is still to be compared after it. -/
def round : List (Value × Value) → Bool ⊕ List (Value × Value)
  | [] => .inl true
  | (.pair _ a b _, .pair _ c d _) :: rest => .inr ((a, c) :: (b, d) :: rest)
  | (v, w) :: rest => if equalAtom v w then .inr rest else .inl false

/-- The comparison comes to the answer in so many rounds. -/
inductive Answers (answer : Bool) : Nat → List (Value × Value) → Prop
  | last {work : List (Value × Value)} : round work = .inl answer → Answers answer 1 work
  | next {n : Nat} {work rest : List (Value × Value)} : round work = .inr rest →
    Answers answer n rest → Answers answer (n + 1) work

theorem allEqual_round (work : List (Value × Value)) :
    allEqual work = (round work).elim id allEqual := by
  fun_cases round work with
  | case1 => rw [allEqual]; rfl
  | case2 => rw [allEqual]; rfl
  | case3 v w rest hpairs hatom =>
      rw [allEqual, hatom]
      · rfl
      · exact hpairs
  | case4 v w rest hpairs hatom =>
      rw [allEqual, Bool.eq_false_iff.mpr hatom]
      · rfl
      · exact hpairs

/-- The comparison comes to no other answer. -/
theorem Answers.eq {answer : Bool} {n : Nat} {work : List (Value × Value)}
    (h : Answers answer n work) : allEqual work = answer := by
  induction h with
  | last hround => rw [allEqual_round, hround]; rfl
  | next hround _ ih => rw [allEqual_round, hround]; exact ih

/-- There are no more rounds than nodes, and one at the end. -/
theorem answers_allEqual (work : List (Value × Value)) :
    ∃ n ≤ sizes (work.map Prod.fst) + 1, Answers (allEqual work) n work := by
  fun_induction allEqual work with
  | case1 => exact ⟨1, Nat.le_refl 1, .last rfl⟩
  | case2 i a b s j c d t rest ih =>
      obtain ⟨n, hn, h⟩ := ih
      refine ⟨n + 1, ?_, .next rfl h⟩
      simp only [List.map_cons, sizes_cons, size] at hn ⊢
      omega
  | case3 v w rest hpairs ih =>
      have hround : round ((v, w) :: rest) = if equalAtom v w then .inr rest else .inl false := by
        rw [round]
        exact hpairs
      have hv := size_pos v
      cases hatom : equalAtom v w with
      | true =>
          obtain ⟨n, hn, h⟩ := ih
          refine ⟨n + 1, ?_, .next (by rw [hround, hatom]; rfl) h⟩
          simp only [List.map_cons, sizes_cons]
          omega
      | false =>
          refine ⟨1, Nat.le_add_left 1 _, .last ?_⟩
          rw [hround, hatom]
          rfl

/-! ## The definition by recursion -/

/-- The values are of the same kind and consist of the same. -/
def Equal : Value → Value → Prop
  | .symbol a _, .symbol b _ => a = b
  | .number x _, .number y _ => x == y
  | .boolean a _, .boolean b _ => a = b
  | .string a _, .string b _ => a = b
  | .nil _, .nil _ => True
  | .okay _, .okay _ => True
  | .pair _ a b _, .pair _ c d _ => a.Equal c ∧ b.Equal d
  | .primitive p _, .primitive q _ => p.name = q.name
  | .lambda i _ _ _ _, .lambda j _ _ _ _ => i = j
  | .mu i _ _ _, .mu j _ _ _ => i = j
  | _, _ => False

theorem equal_iff {v w : Value} : v.equal w = true ↔ v.Equal w := by
  induction v generalizing w with
  | pair i a b s iha ihb =>
      cases w with
      | pair j c d t => rw [equal_pair, Bool.and_eq_true, iha, ihb, Equal]
      | _ => simp [equal_eq_equalAtom, car?, equalAtom, Equal]
  | primitive p s =>
      rw [equal_eq_equalAtom (.inl rfl)]
      cases w <;> simp [equalAtom, Equal, Primitive.name_injective.eq_iff]
  | _ =>
      rw [equal_eq_equalAtom (.inl rfl)]
      cases w <;> simp [equalAtom, Equal]

/-! ## Equality is an equivalence -/

/-- No number that the value is built from is NaN. -/
def NoNaN : Value → Prop
  | .number x _ => x.isNaN = false
  | .pair _ car cdr _ => car.NoNaN ∧ cdr.NoNaN
  | _ => True

variable {u v w : Value}

/-- The values that equal themselves are those without NaN. -/
theorem equal_self_iff : v.equal v = true ↔ v.NoNaN := by
  rw [equal_iff]
  induction v with
  | pair i a b s iha ihb => exact and_congr iha ihb
  | number x s =>
      rw [NoNaN, Float.isNaN_eq_decide_eq_nan, decide_eq_false_iff_not]
      exact Float.beq_self_iff
  | _ => simp [Equal, NoNaN]

theorem Equal.symm (h : v.Equal w) : w.Equal v := by
  induction v generalizing w with
  | pair i a b s iha ihb =>
      cases w with
      | pair j c d t => exact ⟨iha h.1, ihb h.2⟩
      | _ => cases h
  | number x s =>
      cases w with
      | number y t => exact BEq.symm h
      | _ => cases h
  | _ => cases w <;> first | exact h.elim | trivial | exact Eq.symm h

theorem Equal.trans (huv : u.Equal v) (hvw : v.Equal w) : u.Equal w := by
  induction u generalizing v w with
  | pair i a b s iha ihb =>
      cases v with
      | pair j c d t =>
          cases w with
          | pair k e f r => exact ⟨iha huv.1 hvw.1, ihb huv.2 hvw.2⟩
          | _ => cases hvw
      | _ => cases huv
  | number x s =>
      cases v with
      | number y t =>
          cases w with
          | number z r => exact BEq.trans huv hvw
          | _ => cases hvw
      | _ => cases huv
  | _ =>
      cases v <;> try exact huv.elim
      all_goals cases w <;> first | exact hvw.elim | trivial | exact Eq.trans huv hvw

end Value

/-! ## The primitives -/

/-- A call of the primitive on the two values answers that it is so. -/
def Primitive.Affirms (p : Primitive) (v w : Value) : Prop :=
  ∀ eval i span σ, p.call eval i span [v, w] σ = .value (.boolean true span) σ

namespace Primitive

variable {u v w : Value}

theorem affirms_iff {p : Primitive} {answer : Bool}
    (hcall : ∀ eval i span, p.call eval i span [v, w] = Pure.pure (.boolean answer span)) :
    p.Affirms v w ↔ answer = true := by
  constructor
  · intro h
    have hanswer := h (fun _ _ => .cutShort) 0 .none (State.initial fun _ => .error .notFound)
    rw [hcall] at hanswer
    cases hanswer
    rfl
  · rintro rfl eval i span σ
    rw [hcall]
    rfl

theorem equal_affirms_iff : Primitive.equal.Affirms v w ↔ v.equal w = true :=
  affirms_iff fun _ _ _ => rfl

theorem eq_affirms_iff : Primitive.eq.Affirms v w ↔ v.same w = true :=
  affirms_iff fun _ _ _ => rfl

theorem equal_affirms_self_iff : Primitive.equal.Affirms v v ↔ v.NoNaN :=
  equal_affirms_iff.trans Value.equal_self_iff

theorem equal_affirms_symm (h : Primitive.equal.Affirms v w) : Primitive.equal.Affirms w v := by
  rw [equal_affirms_iff, Value.equal_iff] at h ⊢
  exact h.symm

theorem equal_affirms_trans (huv : Primitive.equal.Affirms u v)
    (hvw : Primitive.equal.Affirms v w) : Primitive.equal.Affirms u w := by
  rw [equal_affirms_iff, Value.equal_iff] at huv hvw ⊢
  exact huv.trans hvw

end Primitive

end DualScope
