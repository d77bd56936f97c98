import DualScope.Primitive.Call
import Mathlib

/-!
# Calls on numbers

Arithmetic and comparisons look for what is wrong with a call in one order, whichever of them is
called: whether there are as many arguments as they take, whether the arguments are numbers, from
the left, and whether an argument that is to be divided by is zero. `Numeric.Ends` says so for all
of them at once, with a rule for each fault and one for the value.

A value is reached by divisions of which none is by zero: that is asked for in the rules of
`Quotient`, one division at a time.
-/

namespace DualScope

/-! ## Zeros -/

/-- The number is one of the two zeros. -/
def IsZero (x : Float) : Prop :=
  x = 0 ∨ x = -0

theorem beq_zero_iff {x : Float} : (x == 0) = true ↔ IsZero x := by
  have hzero : (0 : Float) ≠ Float.nan := by decide +kernel
  have hnegative : (-0 : Float) ≠ Float.nan := by decide +kernel
  rw [Float.beq_iff_ne_nan_and_eq, IsZero]
  constructor
  · rintro ⟨-, -, h | ⟨h, -⟩ | ⟨h, -⟩⟩
    · exact .inl h
    · exact .inl h
    · exact .inr h
  · rintro (rfl | rfl)
    · exact ⟨hzero, hzero, .inl rfl⟩
    · exact ⟨hnegative, hzero, .inr (.inr ⟨rfl, rfl⟩)⟩

/-- Dividing a number by others in turn, none of which is zero. -/
inductive Quotient : Float → List Float → Float → Prop
  | none (x : Float) : Quotient x [] x
  | next {x y z : Float} {ys : List Float} : ¬ IsZero y → Quotient (x / y) ys z →
    Quotient x (y :: ys) z

theorem divide_cons {x y : Float} {ys : List Float} (hy : ¬ IsZero y) :
    divide x (y :: ys) = divide (x / y) ys := by
  have hne : (y == 0) = false := Bool.eq_false_iff.mpr fun h => hy (beq_zero_iff.mp h)
  rw [divide, divide, List.any_cons, hne, Bool.false_or, List.foldl_cons]

theorem divide_of_quotient {x z : Float} {ys : List Float} (h : Quotient x ys z) :
    divide x ys = .ok z := by
  induction h with
  | none x => rfl
  | next hy _ ih => rw [divide_cons hy, ih]

theorem exists_quotient (x : Float) {ys : List Float} (h : ∀ y ∈ ys, ¬ IsZero y) :
    ∃ z, Quotient x ys z := by
  induction ys generalizing x with
  | nil => exact ⟨x, .none x⟩
  | cons y ys ih =>
      obtain ⟨hy, hys⟩ := List.forall_mem_cons.mp h
      obtain ⟨z, hz⟩ := ih (x / y) hys
      exact ⟨z, .next hy hz⟩

theorem divide_of_zero (x : Float) {ys : List Float} (h : ∃ y ∈ ys, IsZero y) :
    divide x ys = .error .divisionByZero := by
  obtain ⟨y, hy, hzero⟩ := h
  exact if_pos (List.any_eq_true.mpr ⟨y, hy, beq_zero_iff.mpr hzero⟩)

/-! ## Arguments -/

/-- The arguments are these numbers. -/
def AreNumbers (args : List Value) (xs : List Float) : Prop :=
  List.Forall₂ (fun v x => ∃ span, v = .number x span) args xs

theorem numbersAfter_ok {args : List Value} {xs : List Float} (h : AreNumbers args xs)
    (found : List Float) (position : Nat) :
    numbersAfter found position args = .ok (found.reverse ++ xs) := by
  induction h generalizing found position with
  | nil => rw [numbersAfter, List.append_nil]
  | cons hv _ ih =>
      obtain ⟨span, rfl⟩ := hv
      rw [numbersAfter, ih]
      simp

theorem numbersAfter_error {front rest : List Value} {v : Value}
    (hfront : ∀ w ∈ front, w.kind = .number) (hv : v.kind ≠ .number) (found : List Float)
    (position : Nat) :
    numbersAfter found position (front ++ v :: rest) =
      .error (.wrongType (position + front.length) .number v.kind) := by
  induction front generalizing found position with
  | nil =>
      rw [List.nil_append, numbersAfter]
      · rfl
      · rintro x span rfl
        exact hv rfl
  | cons w front ih =>
      obtain ⟨hw, hrest⟩ := List.forall_mem_cons.mp hfront
      cases w with
      | number x span =>
          rw [List.cons_append, numbersAfter, ih hrest]
          simp [Nat.add_assoc, Nat.add_comm 1]
      | _ => cases hw

/-- The arguments are numbers, or there is a first one that is not. -/
theorem numbers_or_first (args : List Value) :
    (∃ xs, AreNumbers args xs) ∨ ∃ front v rest, args = front ++ v :: rest ∧
      (∀ w ∈ front, w.kind = .number) ∧ v.kind ≠ .number := by
  induction args with
  | nil => exact .inl ⟨[], .nil⟩
  | cons w args ih =>
      by_cases hw : w.kind = .number
      · rcases ih with ⟨xs, hxs⟩ | ⟨front, v, rest, rfl, hfront, hv⟩
        · cases w with
          | number x span => exact .inl ⟨x :: xs, .cons ⟨span, rfl⟩ hxs⟩
          | _ => cases hw
        · exact .inr ⟨w :: front, v, rest, rfl, List.forall_mem_cons.mpr ⟨hw, hfront⟩, hv⟩
      · exact .inr ⟨[], w, args, rfl, List.forall_mem_nil _, hw⟩

/-! ## Results -/

/-- What an operation comes to for numbers, where it comes to anything. -/
inductive Arithmetic.Result : Arithmetic → List Float → Float → Prop
  | sum (xs : List Float) : Result .add xs (xs.foldl (· + ·) (-0.0))
  | product (xs : List Float) : Result .mul xs (xs.foldl (· * ·) 1)
  | negation (x : Float) : Result .sub [x] (-x)
  | difference (x y : Float) (ys : List Float) :
    Result .sub (x :: y :: ys) ((y :: ys).foldl (· - ·) x)
  | reciprocal {x z : Float} : Quotient 1 [x] z → Result .div [x] z
  | ratio {x y z : Float} {ys : List Float} : Quotient x (y :: ys) z →
    Result .div (x :: y :: ys) z
  | magnitude (x : Float) : Result .abs [x] x.abs
  | quotient {x y z : Float} : Quotient x [y] z → Result .quotient [x, y] (Number.truncated z)
  | remainder {x y : Float} : ¬ IsZero y → Result .remainder [x, y] (Number.remainder x y)

theorem Arithmetic.ofNumbers_of_result {op : Arithmetic} {xs : List Float} {z : Float}
    (h : op.Result xs z) : op.ofNumbers xs = .ok z := by
  cases h with
  | sum | product | negation | difference | magnitude => rfl
  | reciprocal hz => exact divide_of_quotient hz
  | ratio hz => exact divide_of_quotient hz
  | quotient hz => rw [ofNumbers, divide_of_quotient hz]; rfl
  | remainder hy => exact if_neg fun h => hy (beq_zero_iff.mp h)

/-- The relation that a comparison asks for. A number is equal to itself and either zero to the
other, but a NaN is equal to nothing; the order is that of the doubles. -/
def Comparison.Relates : Comparison → Float → Float → Prop
  | .equal, x, y => x ≠ .nan ∧ y ≠ .nan ∧ (x = y ∨ IsZero x ∧ IsZero y)
  | .less, x, y => x < y
  | .lessEqual, x, y => x ≤ y
  | .greater, x, y => y < x
  | .greaterEqual, x, y => y ≤ x

theorem Comparison.holds_iff {op : Comparison} {x y : Float} :
    op.holds x y = true ↔ op.Relates x y := by
  cases op with
  | equal =>
      rw [holds, Float.beq_iff_ne_nan_and_eq, Relates]
      refine and_congr_right' (and_congr_right' ⟨?_, ?_⟩)
      · rintro (rfl | ⟨rfl, rfl⟩ | ⟨rfl, rfl⟩)
        · exact .inl rfl
        · exact .inr ⟨.inl rfl, .inr rfl⟩
        · exact .inr ⟨.inr rfl, .inl rfl⟩
      · rintro (rfl | ⟨rfl | rfl, rfl | rfl⟩)
        · exact .inl rfl
        · exact .inl rfl
        · exact .inr (.inl ⟨rfl, rfl⟩)
        · exact .inr (.inr ⟨rfl, rfl⟩)
        · exact .inl rfl
  | less | lessEqual | greater | greaterEqual => exact decide_eq_true_iff

/-- The primitives on numbers. -/
inductive Numeric
  | arithmetic (op : Arithmetic)
  | comparison (op : Comparison)

namespace Numeric

def primitive : Numeric → Primitive
  | arithmetic op => .arithmetic op
  | comparison op => .comparison op

/-- How many arguments there may be. -/
def Takes : Numeric → Nat → Prop
  | .arithmetic .add, _ | .arithmetic .mul, _ => True
  | .arithmetic .sub, n | .arithmetic .div, n => 1 ≤ n
  | .arithmetic .abs, n => n = 1
  | .arithmetic .quotient, n | .arithmetic .remainder, n => n = 2
  | .comparison _, n => 2 ≤ n

/-- The arguments that others are divided by. -/
def divisors : Numeric → List Float → List Float
  | .arithmetic .div, [x] => [x]
  | .arithmetic .div, _ :: ys => ys
  | .arithmetic .quotient, [_, y] | .arithmetic .remainder, [_, y] => [y]
  | _, _ => []

/-- The value of a call with these numbers. -/
inductive Result (span : Span) : Numeric → List Float → Value → Prop
  | number {op : Arithmetic} {xs : List Float} {z : Float} : op.Result xs z →
    Result span (.arithmetic op) xs (.number z span)
  /-- The relation holds between every two neighbours, or it does not. -/
  | truth {op : Comparison} {xs : List Float} {b : Bool} :
    (b = true ↔ xs.IsChain op.Relates) → Result span (.comparison op) xs (.boolean b span)

/-- How a call ends. The rules are in the order of what they ask for: each of them presupposes
that none of those before it applies. -/
inductive Ends (p : Numeric) (args : List Value) (span : Span) (σ : State) : Ending Value → Prop
  | miscounted : ¬ p.Takes args.length →
    Ends p args span σ
      (.error (.primitive p.primitive (.arity p.primitive.arity args.length) span) σ)
  | notNumber {front rest : List Value} {v : Value} : p.Takes args.length →
    args = front ++ v :: rest → (∀ w ∈ front, w.kind = .number) → v.kind ≠ .number →
      Ends p args span σ
        (.error (.primitive p.primitive (.wrongType front.length .number v.kind) span) σ)
  | zeroDivisor {xs : List Float} : p.Takes args.length → AreNumbers args xs →
    (∃ y ∈ p.divisors xs, IsZero y) →
      Ends p args span σ (.error (.primitive p.primitive .divisionByZero span) σ)
  | value {xs : List Float} {v : Value} : p.Takes args.length → AreNumbers args xs →
    p.Result span xs v → Ends p args span σ (.value v σ)

variable {p : Numeric} {args : List Value} {xs : List Float} {span : Span} {σ : State}

theorem accepts_iff (p : Numeric) (n : Nat) : p.primitive.arity.accepts n = true ↔ p.Takes n := by
  cases p with
  | comparison op => simp [primitive, Primitive.arity, Comparison.arity, Arity.accepts, Takes]
  | arithmetic op =>
      cases op <;>
        simp [primitive, Primitive.arity, Arithmetic.arity, Arity.accepts, Takes]

/-- A call as it is carried out, whichever primitive is called. -/
def outcome (p : Numeric) (span : Span) (args : List Value) : Except Fault Value := do
  let xs ← countedNumbers p.primitive.arity args
  match p with
  | arithmetic op => return .number (← op.ofNumbers xs) span
  | comparison op => return .boolean (op.chain xs) span

theorem call_eq (eval : Evaluation) (i : FrameId) :
    p.primitive.call eval i span args σ =
      match p.outcome span args with
      | .ok v => .value v σ
      | .error f => .error (.primitive p.primitive f span) σ := by
  cases p with
  | arithmetic op =>
      have hcall : (primitive (.arithmetic op)).call eval i span args =
          ((Primitive.arithmetic op).ofFault span (op.compute args) >>= fun z =>
            pure (.number z span)) := rfl
      have hcompute : op.compute args = countedNumbers op.arity args >>= op.ofNumbers := rfl
      rw [hcall, hcompute]
      simp only [outcome, primitive, Primitive.arity]
      cases countedNumbers op.arity args with
      | error f => rfl
      | ok xs =>
          simp only [bind, Except.bind]
          cases op.ofNumbers xs <;> rfl
  | comparison op =>
      have hcall : (primitive (.comparison op)).call eval i span args =
          ((Primitive.comparison op).ofFault span (op.compute args) >>= fun b =>
            pure (.boolean b span)) := rfl
      have hcompute : op.compute args = (countedNumbers Comparison.arity args).map op.chain := rfl
      rw [hcall, hcompute]
      simp only [outcome, primitive, Primitive.arity]
      cases countedNumbers Comparison.arity args <;> rfl

theorem counted_of_ends (htakes : p.Takes args.length) (hargs : AreNumbers args xs) :
    countedNumbers p.primitive.arity args = .ok xs := by
  rw [countedNumbers, if_pos ((p.accepts_iff _).mpr htakes), numbers, numbersAfter_ok hargs]
  rfl

theorem chain_iff (op : Comparison) (xs : List Float) :
    op.chain xs = true ↔ xs.IsChain op.Relates := by
  fun_induction Comparison.chain op xs with
  | case1 x y rest ih =>
      rw [Bool.and_eq_true, ih, List.isChain_cons_cons, Comparison.holds_iff]
  | case2 xs hshort =>
      match xs, hshort with
      | [], _ => exact iff_of_true rfl .nil
      | [x], _ => exact iff_of_true rfl (.singleton x)
      | x :: y :: rest, hshort => exact absurd rfl (hshort x y rest)

theorem outcome_of_result {v : Value} (htakes : p.Takes args.length)
    (hargs : AreNumbers args xs) (hv : p.Result span xs v) : p.outcome span args = .ok v := by
  rw [outcome, counted_of_ends htakes hargs]
  cases hv with
  | number hz =>
      simp only [bind, Except.bind, Arithmetic.ofNumbers_of_result hz]
      rfl
  | @truth op xs b hb =>
      have hchain : op.chain xs = b := Bool.eq_iff_iff.mpr ((chain_iff op xs).trans hb.symm)
      rw [← hchain]
      rfl

/-- A zero among the divisors is found before anything is divided. -/
theorem ofNumbers_of_zero {op : Arithmetic} (h : ∃ y ∈ (arithmetic op).divisors xs, IsZero y) :
    op.ofNumbers xs = .error .divisionByZero := by
  have hnone : (arithmetic op).divisors xs ≠ [] := by
    obtain ⟨y, hy, -⟩ := h
    exact List.ne_nil_of_mem hy
  cases op with
  | div =>
      match xs, h, hnone with
      | [x], h, _ => exact divide_of_zero 1 h
      | x :: y :: ys, h, _ => exact divide_of_zero x h
      | [], _, hnone => exact absurd rfl hnone
  | quotient =>
      match xs, h, hnone with
      | [x, y], h, _ =>
          have hdivide : divide x [y] = .error .divisionByZero := divide_of_zero x h
          rw [Arithmetic.ofNumbers, hdivide]
          rfl
      | [], _, hnone | [_], _, hnone | _ :: _ :: _ :: _, _, hnone => exact absurd rfl hnone
  | remainder =>
      match xs, h, hnone with
      | [x, y], h, _ =>
          obtain ⟨w, hw, hzero⟩ := h
          cases List.mem_singleton.mp hw
          exact if_pos (beq_zero_iff.mpr hzero)
      | [], _, hnone | [_], _, hnone | _ :: _ :: _ :: _, _, hnone => exact absurd rfl hnone
  | add | mul | sub | abs => exact absurd rfl hnone

theorem exists_result (span : Span) (htakes : p.Takes xs.length)
    (hdivisors : ∀ y ∈ p.divisors xs, ¬ IsZero y) : ∃ v, p.Result span xs v := by
  cases p with
  | comparison op => exact ⟨_, .truth (chain_iff op xs)⟩
  | arithmetic op =>
      suffices hz : ∃ z, op.Result xs z by
        obtain ⟨z, hz⟩ := hz
        exact ⟨_, .number hz⟩
      cases op with
      | add => exact ⟨_, .sum xs⟩
      | mul => exact ⟨_, .product xs⟩
      | sub =>
          match xs, htakes with
          | [x], _ => exact ⟨_, .negation x⟩
          | x :: y :: ys, _ => exact ⟨_, .difference x y ys⟩
      | div =>
          match xs, htakes, hdivisors with
          | [x], _, hdivisors =>
              obtain ⟨z, hz⟩ := exists_quotient 1 hdivisors
              exact ⟨z, .reciprocal hz⟩
          | x :: y :: ys, _, hdivisors =>
              obtain ⟨z, hz⟩ := exists_quotient x hdivisors
              exact ⟨z, .ratio hz⟩
      | abs =>
          obtain ⟨x, rfl⟩ := List.length_eq_one_iff.mp htakes
          exact ⟨_, .magnitude x⟩
      | quotient =>
          obtain ⟨x, y, rfl⟩ := List.length_eq_two.mp htakes
          obtain ⟨z, hz⟩ := exists_quotient x hdivisors
          exact ⟨_, .quotient hz⟩
      | remainder =>
          obtain ⟨x, y, rfl⟩ := List.length_eq_two.mp htakes
          exact ⟨_, .remainder (hdivisors y List.mem_cons_self)⟩

/-- There is always a rule that applies. -/
theorem exists_ends (p : Numeric) (args : List Value) (span : Span) (σ : State) :
    ∃ r, p.Ends args span σ r := by
  by_cases htakes : p.Takes args.length
  · rcases numbers_or_first args with ⟨xs, hargs⟩ | ⟨front, v, rest, hargs, hfront, hv⟩
    · by_cases hzero : ∃ y ∈ p.divisors xs, IsZero y
      · exact ⟨_, .zeroDivisor htakes hargs hzero⟩
      · obtain ⟨v, hv⟩ := exists_result span (hargs.length_eq ▸ htakes)
          fun y hy h => hzero ⟨y, hy, h⟩
        exact ⟨_, .value htakes hargs hv⟩
    · exact ⟨_, .notNumber htakes hargs hfront hv⟩
  · exact ⟨_, .miscounted htakes⟩

/-- The rules tell of every call what it does. -/
theorem call_of_ends {r : Ending Value} (h : p.Ends args span σ r) (eval : Evaluation)
    (i : FrameId) : p.primitive.call eval i span args σ = r := by
  rw [call_eq]
  cases h with
  | miscounted htakes =>
      have hcounted : countedNumbers p.primitive.arity args =
          .error (.arity p.primitive.arity args.length) :=
        if_neg fun h => htakes ((p.accepts_iff _).mp h)
      rw [outcome, hcounted]
      rfl
  | @notNumber front rest v htakes hargs hfront hv =>
      have hcounted : countedNumbers p.primitive.arity args =
          .error (.wrongType front.length .number v.kind) := by
        rw [countedNumbers, if_pos ((p.accepts_iff _).mpr htakes), numbers, hargs,
          numbersAfter_error hfront hv, Nat.zero_add]
      rw [outcome, hcounted]
      rfl
  | zeroDivisor htakes hargs hzero =>
      rw [outcome, counted_of_ends htakes hargs]
      cases p with
      | comparison op =>
          obtain ⟨y, hy, -⟩ := hzero
          cases hy
      | arithmetic op =>
          simp only [bind, Except.bind, ofNumbers_of_zero hzero]
  | value htakes hargs hv => rw [outcome_of_result htakes hargs hv]

end Numeric

/-- A call of a primitive on numbers ends as the first rule says that applies to its arguments,
and leaves the state as it was. It fails because of the number of arguments whatever they are,
then because of the first one that is no number, then because of a zero among the divisors; in all
other cases it has a value, and no number is divided by zero on the way. Messages count the
arguments from one. -/
theorem numeric_call_ends (p : Numeric) (eval : Evaluation) (i : FrameId) (span : Span)
    (args : List Value) (σ : State) :
    (∀ r, p.primitive.call eval i span args σ = r ↔ p.Ends args span σ r) ∧
      ∀ (front : List Value) (kind : Kind),
        (Fault.wrongType front.length .number kind).message =
          "argument " ++ toString (front.length + 1) ++ " must be a " ++ "number" ++ ", got "
            ++ kind.name := by
  refine ⟨fun r => ⟨fun hcall => ?_, fun h => Numeric.call_of_ends h eval i⟩, fun _ _ => rfl⟩
  obtain ⟨r', hr'⟩ := Numeric.exists_ends p args span σ
  rw [← hcall, Numeric.call_of_ends hr' eval i]
  exact hr'

end DualScope
