import LayeredIR.Operator.Evaluation
import Mathlib.Algebra.Group.Int.Defs

/-! Arithmetic of 64-bit integers. An operation gives its exact result where that is a 64-bit
integer, and says that it overflows where it is not. Quotients and remainders are those of division
towards zero, and exist together; a dividend is had back from them without overflow. -/
namespace LayeredIR

namespace CheckedInt

def Fits (n : Int) : Prop := -2 ^ 63 ≤ n ∧ n < 2 ^ 63

theorem fits_toInt (a : Int64) : Fits a.toInt := ⟨a.le_toInt, a.toInt_lt⟩

theorem ofInt?_eq_some_iff {n : Int} {w : Int64} : ofInt? n = some w ↔ w.toInt = n := by
  have least : Int64.minValue.toInt = -2 ^ 63 := rfl
  have greatest : Int64.maxValue.toInt = 2 ^ 63 - 1 := rfl
  rw [ofInt?, least, greatest]
  constructor
  · intro found
    split at found
    · next within =>
      cases found
      exact Int64.toInt_ofInt_of_le within.1 (by omega)
    · cases found
  · rintro rfl
    obtain ⟨lower, upper⟩ := fits_toInt w
    rw [if_pos ⟨lower, by omega⟩, Int64.ofInt_toInt]

theorem ofInt?_of_fits {n : Int} (fits : Fits n) :
    ∃ w : Int64, w.toInt = n ∧ ofInt? n = some w := by
  have exact : (Int64.ofInt n).toInt = n := Int64.toInt_ofInt_of_le fits.1 fits.2
  exact ⟨.ofInt n, exact, ofInt?_eq_some_iff.mpr exact⟩

theorem ofInt?_of_not_fits {n : Int} (large : ¬ Fits n) : ofInt? n = none := by
  cases found : ofInt? n with
  | none => rfl
  | some w => exact absurd (ofInt?_eq_some_iff.mp found ▸ fits_toInt w) large

/-- The remainder lies between zero and the dividend. -/
theorem tmod_between (a b : Int) : 0 ≤ a.tmod b ∧ a.tmod b ≤ a ∨ a ≤ a.tmod b ∧ a.tmod b ≤ 0 := by
  have size : (a.tmod b).natAbs ≤ a.natAbs := by
    rw [Int.natAbs_tmod]
    exact Nat.mod_le _ _
  rcases Int.le_total 0 a with positive | negative
  · have sign := Int.tmod_nonneg b positive
    omega
  · have sign := Int.tmod_nonneg b (Int.neg_nonneg_of_nonpos negative)
    rw [Int.neg_tmod] at sign
    omega

theorem sign_tmod (a b : Int) : a.tmod b = 0 ∨ (a.tmod b).sign = a.sign := by
  have between := tmod_between a b
  rcases Int.lt_trichotomy (a.tmod b) 0 with negative | zero | positive
  · have below : a < 0 := by omega
    exact .inr (by rw [Int.sign_eq_neg_one_of_neg negative, Int.sign_eq_neg_one_of_neg below])
  · exact .inl zero
  · have above : 0 < a := by omega
    exact .inr (by rw [Int.sign_eq_one_of_pos positive, Int.sign_eq_one_of_pos above])

theorem natAbs_tmod_lt (a : Int) {b : Int} (divisor : b ≠ 0) :
    (a.tmod b).natAbs < b.natAbs := by
  rw [Int.natAbs_tmod]
  exact Nat.mod_lt _ (Int.natAbs_pos.mpr divisor)

/-- What the quotient takes of the dividend is no larger than the dividend. -/
theorem fits_tdiv_mul {a : Int} (fits : Fits a) (b : Int) : Fits (a.tdiv b * b) := by
  have parts : b * a.tdiv b + a.tmod b = a := Int.mul_tdiv_add_tmod a b
  rw [Int.mul_comm] at parts
  have between := tmod_between a b
  unfold Fits at *
  omega

/-- One quotient of two 64-bit integers is none. -/
theorem fits_tdiv_iff {a b : Int} (fits : Fits a) (divisor : b ≠ 0) :
    Fits (a.tdiv b) ↔ ¬ (a = -2 ^ 63 ∧ b = -1) := by
  have size : (a.tdiv b).natAbs ≤ a.natAbs := Int.natAbs_tdiv_le_natAbs a b
  unfold Fits at *
  constructor
  · rintro within ⟨rfl, rfl⟩
    exact absurd within.2 (by decide)
  · intro other
    by_cases unit : b.natAbs = 1
    · rcases Int.natAbs_eq_iff.mp unit with rfl | rfl
      · rw [Int.natCast_one, Int.tdiv_one]
        exact fits
      · rw [Int.natCast_one, Int.tdiv_neg, Int.tdiv_one]
        omega
    · -- any divisor but 1 and -1 leaves half of the dividend or less
      have less : (a.tdiv b).natAbs ≤ a.natAbs / 2 := by
        rw [Int.natAbs_tdiv]
        exact Nat.div_le_div_left (by omega) (by decide)
      omega

end CheckedInt

namespace Operator

def Exactly (operation : String) (n : Int) (answer : Except Cause Value) : Prop :=
  (CheckedInt.Fits n → ∃ w : Int64, w.toInt = n ∧ answer = .ok (.int w)) ∧
    (¬ CheckedInt.Fits n → answer = .error (.integerOverflow operation))

theorem exactInt_exactly (operation : String) (n : Int) :
    Exactly operation n (exactInt (CheckedInt.ofInt? n) operation) := by
  refine ⟨fun fits => ?_, fun large => ?_⟩
  · obtain ⟨w, exact, found⟩ := CheckedInt.ofInt?_of_fits fits
    exact ⟨w, exact, by rw [found, exactInt]⟩
  · rw [CheckedInt.ofInt?_of_not_fits large, exactInt]

theorem Exactly.eq_ok {operation : String} {w : Int64} {answer : Except Cause Value}
    (exactly : Exactly operation w.toInt answer) : answer = .ok (.int w) := by
  obtain ⟨v, same, answered⟩ := exactly.1 (CheckedInt.fits_toInt w)
  rw [answered, Int64.toInt_inj.mp same]

/-- The two answers of a division: no divisor, no room for the quotient, or both of its results. -/
theorem division_cases (a b : Int64) :
    (b = 0 ∧ evaluate .div [.int a, .int b] = .error .divisionByZero ∧
      evaluate .mod [.int a, .int b] = .error .divisionByZero) ∨
    ((a = Int64.minValue ∧ b = -1) ∧
      evaluate .div [.int a, .int b] = .error (.integerOverflow "division") ∧
      evaluate .mod [.int a, .int b] = .error (.integerOverflow "remainder")) ∨
    (b ≠ 0 ∧ ¬ (a = Int64.minValue ∧ b = -1) ∧ ∃ q r : Int64,
      q.toInt = a.toInt.tdiv b.toInt ∧ r.toInt = a.toInt.tmod b.toInt ∧
      evaluate .div [.int a, .int b] = .ok (.int q) ∧
      evaluate .mod [.int a, .int b] = .ok (.int r)) := by
  by_cases zero : b = 0
  · subst zero
    exact .inl ⟨rfl, rfl, rfl⟩
  have divided : evaluate .div [.int a, .int b] = exactInt (CheckedInt.div? a b) "division" :=
    if_neg zero
  have left : evaluate .mod [.int a, .int b] = exactInt (CheckedInt.rem? a b) "remainder" :=
    if_neg zero
  have quotient : CheckedInt.div? a b = CheckedInt.ofInt? (a.toInt.tdiv b.toInt) := if_neg zero
  have divisor : b.toInt ≠ 0 := fun same => zero (Int64.toInt_inj.mp same)
  have room := CheckedInt.fits_tdiv_iff (CheckedInt.fits_toInt a) divisor
  have extreme : (a.toInt = -2 ^ 63 ∧ b.toInt = -1) ↔ (a = Int64.minValue ∧ b = -1) :=
    and_congr (Int64.toInt_inj (y := Int64.minValue)) (Int64.toInt_inj (y := -1))
  rw [divided, left, CheckedInt.rem?, quotient]
  by_cases least : a = Int64.minValue ∧ b = -1
  · have large : ¬ CheckedInt.Fits (a.toInt.tdiv b.toInt) :=
      fun fits => room.mp fits (extreme.mpr least)
    rw [CheckedInt.ofInt?_of_not_fits large]
    exact .inr (.inl ⟨least, rfl, rfl⟩)
  · obtain ⟨q, exact, found⟩ :=
      CheckedInt.ofInt?_of_fits (room.mpr fun same => least (extreme.mp same))
    have fits : CheckedInt.Fits (a.toInt.tmod b.toInt) := by
      have between := CheckedInt.tmod_between a.toInt b.toInt
      have whole := CheckedInt.fits_toInt a
      unfold CheckedInt.Fits at *
      omega
    rw [found]
    exact .inr (.inr ⟨zero, least, q, _, exact, Int64.toInt_ofInt_of_le fits.1 fits.2, rfl, rfl⟩)

/-- A dividend is had back from its quotient and its remainder. -/
theorem dividend_recombined {a b q r : Int64} (quotient : q.toInt = a.toInt.tdiv b.toInt)
    (remainder : r.toInt = a.toInt.tmod b.toInt) :
    ∃ p : Int64, evaluate .mul [.int q, .int b] = .ok (.int p) ∧
      evaluate .add [.int p, .int r] = .ok (.int a) := by
  have parts : b.toInt * a.toInt.tdiv b.toInt + a.toInt.tmod b.toInt = a.toInt :=
    Int.mul_tdiv_add_tmod a.toInt b.toInt
  have product : CheckedInt.Fits (q.toInt * b.toInt) := by
    rw [quotient]
    exact CheckedInt.fits_tdiv_mul (CheckedInt.fits_toInt a) b.toInt
  obtain ⟨p, exact, multiplied⟩ :=
    (exactInt_exactly "multiplication" (q.toInt * b.toInt)).1 product
  have whole : p.toInt + r.toInt = a.toInt := by
    rw [exact, quotient, remainder, Int.mul_comm, parts]
  have added : Exactly "addition" a.toInt (evaluate .add [.int p, .int r]) := by
    rw [← whole]
    exact exactInt_exactly _ _
  exact ⟨p, multiplied, added.eq_ok⟩

/-- Sums, differences, products and negations are exact or overflow. A division has no answer for a
zero divisor, overflows for one pair only, and otherwise is the one towards zero: its remainder is
smaller than the divisor and has the sign of the dividend, and the dividend is the divisor times the
quotient, plus the remainder, with no overflow on the way. -/
theorem integers_exact (a b : Int64) :
    (Exactly "addition" (a.toInt + b.toInt) (evaluate .add [.int a, .int b]) ∧
      Exactly "subtraction" (a.toInt - b.toInt) (evaluate .sub [.int a, .int b]) ∧
      Exactly "multiplication" (a.toInt * b.toInt) (evaluate .mul [.int a, .int b]) ∧
      Exactly "negation" (-a.toInt) (evaluate .neg [.int a])) ∧
    (∀ op ∈ [Operator.div, .mod],
      (op.evaluate [.int a, .int b] = .error .divisionByZero ↔ b = 0) ∧
      ((∃ operation, op.evaluate [.int a, .int b] = .error (.integerOverflow operation)) ↔
        a = Int64.minValue ∧ b = -1)) ∧
    (b ≠ 0 → ¬ (a = Int64.minValue ∧ b = -1) → ∃ q r p : Int64,
      evaluate .div [.int a, .int b] = .ok (.int q) ∧ q.toInt = a.toInt.tdiv b.toInt ∧
      evaluate .mod [.int a, .int b] = .ok (.int r) ∧ r.toInt = a.toInt.tmod b.toInt ∧
      r.toInt.natAbs < b.toInt.natAbs ∧ (r = 0 ∨ r.toInt.sign = a.toInt.sign) ∧
      evaluate .mul [.int q, .int b] = .ok (.int p) ∧
      evaluate .add [.int p, .int r] = .ok (.int a)) := by
  refine ⟨⟨exactInt_exactly _ _, exactInt_exactly _ _, exactInt_exactly _ _,
    exactInt_exactly _ _⟩, ?_, fun divisor other => ?_⟩
  · simp only [List.mem_cons, List.not_mem_nil, or_false, forall_eq_or_imp, forall_eq]
    rcases division_cases a b with ⟨zero, divided, left⟩ | ⟨least, divided, left⟩ |
      ⟨divisor, other, q, r, -, -, divided, left⟩
    · rw [divided, left]
      simp [zero]
    · rw [divided, left]
      simp [least]
    · rw [divided, left]
      simp [divisor, other]
  · rcases division_cases a b with ⟨zero, -⟩ | ⟨least, -⟩ |
      ⟨-, -, q, r, quotient, remainder, divided, left⟩
    · exact absurd zero divisor
    · exact absurd least other
    · obtain ⟨p, multiplied, added⟩ := dividend_recombined quotient remainder
      refine ⟨q, r, p, divided, quotient, left, remainder, ?_, ?_, multiplied, added⟩
      · rw [remainder]
        exact CheckedInt.natAbs_tmod_lt _ fun same => divisor (Int64.toInt_inj.mp same)
      · rw [remainder]
        exact (CheckedInt.sign_tmod a.toInt b.toInt).imp_left fun zero =>
          Int64.toInt_inj.mp (remainder.trans zero)

/-- At the ends of the range: a sum that overflows, one that does not, and the least integer had
back from its division by -3. -/
theorem integers_exact_ends :
    evaluate .add [.int Int64.maxValue, .int 1] = .error (.integerOverflow "addition") ∧
    (∃ w : Int64, w.toInt = 2 ^ 63 - 2 ∧
      evaluate .add [.int Int64.maxValue, .int (-1)] = .ok (.int w)) ∧
    ((-3 : Int64) ≠ 0 ∧ ¬ (Int64.minValue = Int64.minValue ∧ (-3 : Int64) = -1)) ∧
    ∃ q r p : Int64, evaluate .div [.int Int64.minValue, .int (-3)] = .ok (.int q) ∧
      q.toInt = 3074457345618258602 ∧
      evaluate .mod [.int Int64.minValue, .int (-3)] = .ok (.int r) ∧ r.toInt = -2 ∧
      evaluate .mul [.int q, .int (-3)] = .ok (.int p) ∧
      evaluate .add [.int p, .int r] = .ok (.int Int64.minValue) := by
  have apart : (-3 : Int64) ≠ 0 ∧ ¬ (Int64.minValue = Int64.minValue ∧ (-3 : Int64) = -1) := by
    decide
  obtain ⟨⟨⟨-, overflows⟩, -⟩, -⟩ := integers_exact Int64.maxValue 1
  obtain ⟨⟨⟨within, -⟩, -⟩, -⟩ := integers_exact Int64.maxValue (-1)
  obtain ⟨q, r, p, divided, quotient, left, remainder, -, -, multiplied, added⟩ :=
    (integers_exact Int64.minValue (-3)).2.2 apart.1 apart.2
  refine ⟨overflows ?_, within ?_, apart, q, r, p, divided, quotient, left, remainder, multiplied,
    added⟩ <;> unfold CheckedInt.Fits <;> decide

end Operator
end LayeredIR
