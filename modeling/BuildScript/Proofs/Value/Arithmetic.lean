import Mathlib
import BuildScript.Value.Operation

/-!
Arithmetic on integers is exact: the result is the number that `Int` gives if 32 bits with a sign
can hold it, and an overflow if they cannot. The one exception is the remainder of the smallest
integer by `-1`: it is zero, but the division that it belongs to overflows.
-/

namespace BuildScript

namespace Integer

/-- 32 bits with a sign can hold the number. -/
def Fits (n : Int) : Prop := -0x80000000 ≤ n ∧ n < 0x80000000

instance : DecidablePred Fits := fun n => by
  unfold Fits
  infer_instance

variable {n : Int} {a b i : Int32}

theorem fits_toInt (i : Int32) : Fits i.toInt := ⟨i.le_toInt, i.toInt_lt⟩

theorem ofInt?_eq_some_iff : ofInt? n = some i ↔ i.toInt = n := by
  unfold ofInt?
  constructor
  · intro h
    split at h
    · rename_i hfits
      cases h
      exact Int32.toInt_ofInt_of_le hfits.1 hfits.2
    · cases h
  · rintro rfl
    have hfits : -0x80000000 ≤ i.toInt ∧ i.toInt < 0x80000000 := fits_toInt i
    rw [if_pos hfits, Int32.ofInt_toInt]

theorem ofInt?_eq_none_iff : ofInt? n = none ↔ ¬Fits n := by
  unfold ofInt? Fits
  split <;> simp_all

/-- An integer that reads as the number is what the number becomes. -/
theorem ofInt?_toInt (i : Int32) : ofInt? i.toInt = some i := ofInt?_eq_some_iff.mpr rfl

/-- A base other than `0`, `1` and `-1` at least doubles with each power. -/
theorem not_fits_pow (h : 2 ≤ n.natAbs) {exponent : Nat} (hexponent : 32 ≤ exponent) :
    ¬Fits (n ^ exponent) := by
  have hgrown : 2 ^ 32 ≤ (n ^ exponent).natAbs :=
    calc 2 ^ 32 ≤ 2 ^ exponent := Nat.pow_le_pow_right (by decide) hexponent
      _ ≤ n.natAbs ^ exponent := Nat.pow_le_pow_left h exponent
      _ = (n ^ exponent).natAbs := (Int.natAbs_pow n exponent).symm
  unfold Fits
  omega

/-- The power is computed exactly, also where it is decided by the base alone. -/
theorem pow?_eq (a : Int32) (exponent : Nat) : pow? a exponent = ofInt? (a.toInt ^ exponent) := by
  unfold pow?
  split
  · rfl
  · rename_i hlarge
    have hpositive : exponent ≠ 0 := by omega
    by_cases hzero : a = 0
    · subst hzero
      have hpow : (0 : Int32).toInt ^ exponent = (0 : Int32).toInt := zero_pow hpositive
      rw [hpow, ofInt?_toInt]
      rfl
    · by_cases hone : a = 1
      · subst hone
        have hpow : (1 : Int32).toInt ^ exponent = (1 : Int32).toInt := one_pow exponent
        rw [hpow, ofInt?_toInt]
        rfl
      · by_cases hminus : a = -1
        · subst hminus
          have hpow : (-1 : Int32).toInt ^ exponent = (-1 : Int) ^ (exponent % 2) :=
            neg_one_pow_eq_pow_mod_two exponent
          rw [hpow]
          rcases Nat.mod_two_eq_zero_or_one exponent with heven | hodd
          · rw [heven]
            rfl
          · rw [hodd]
            rfl
        · have hbase : 2 ≤ a.toInt.natAbs := by
            have hzero : a.toInt ≠ 0 := fun h => hzero (Int32.toInt_inj.mp h)
            have hone : a.toInt ≠ 1 := fun h => hone (Int32.toInt_inj.mp h)
            have hminus : a.toInt ≠ -1 := fun h => hminus (Int32.toInt_inj.mp h)
            omega
          rw [ofInt?_eq_none_iff.mpr (not_fits_pow hbase (Nat.le_of_not_lt hlarge))]
          simp [hzero, hone, hminus]

/-- Halving at least, a division ends well inside the range. -/
theorem fits_tdiv_of_two_le {divisor : Int} (h : 2 ≤ divisor.natAbs) (a : Int32) :
    Fits (a.toInt.tdiv divisor) := by
  have hbound : a.toInt.natAbs ≤ 0x80000000 := by
    have ha := fits_toInt a
    unfold Fits at ha
    omega
  have hquotient : (a.toInt.tdiv divisor).natAbs ≤ a.toInt.natAbs / 2 := by
    rw [Int.natAbs_tdiv]
    exact Nat.div_le_div_left h (by decide)
  unfold Fits
  omega

/-- Of all quotients only that of the smallest integer by `-1` is out of range. -/
theorem fits_tdiv_iff (a b : Int32) :
    Fits (a.toInt.tdiv b.toInt) ↔ ¬(a = Int32.minValue ∧ b = -1) := by
  constructor
  · rintro hfits ⟨rfl, rfl⟩
    exact absurd hfits.2 (by decide)
  · intro h
    by_cases hsmall : 2 ≤ b.toInt.natAbs
    · exact fits_tdiv_of_two_le hsmall a
    · obtain hzero | hone | hminus : b.toInt = 0 ∨ b.toInt = 1 ∨ b.toInt = -1 := by omega
      · rw [hzero, Int.tdiv_zero]
        decide
      · rw [hone, Int.tdiv_one]
        exact fits_toInt a
      · have hb : b = -1 := Int32.toInt_inj.mp hminus
        have ha : a.toInt ≠ Int32.minValue.toInt := fun ha => h ⟨Int32.toInt_inj.mp ha, hb⟩
        have hsmallest : Int32.minValue.toInt = -0x80000000 := by decide
        have hfits := fits_toInt a
        rw [hminus, Int.tdiv_neg, Int.tdiv_one]
        unfold Fits at hfits ⊢
        omega

/-- A remainder is always in range: it is smaller than the divisor. -/
theorem fits_tmod (a : Int32) {b : Int32} (h : b ≠ 0) : Fits (a.toInt.tmod b.toInt) := by
  have hdivisor := fits_toInt b
  have hpositive : b.toInt ≠ 0 := fun hb => h (Int32.toInt_inj.mp hb)
  have hsize := Int.natAbs_tmod a.toInt b.toInt
  have hsmaller : a.toInt.natAbs % b.toInt.natAbs < b.toInt.natAbs := Nat.mod_lt _ (by omega)
  unfold Fits at hdivisor ⊢
  omega

/-- The remainder is exact wherever the quotient is in range. -/
theorem rem?_of_fits (h : Fits (a.toInt.tdiv b.toInt)) :
    rem? a b = ofInt? (a.toInt - b.toInt * a.toInt.tdiv b.toInt) := by
  unfold rem? div?
  rw [← Int.tmod_def]
  cases hquotient : ofInt? (a.toInt.tdiv b.toInt) with
  | none => exact absurd h (ofInt?_eq_none_iff.mp hquotient)
  | some q => rfl

theorem rem?_eq_none_iff (h : b ≠ 0) : rem? a b = none ↔ ¬Fits (a.toInt.tdiv b.toInt) := by
  unfold rem? div?
  rw [← ofInt?_eq_none_iff]
  cases ofInt? (a.toInt.tdiv b.toInt) with
  | none => simp
  | some q => simp [ofInt?_eq_none_iff, fits_tmod a h]

end Integer

namespace Operation

open Integer (Fits)

/-- The result is the integer that stands for the number, or an overflow if none does. -/
structure Exact (result : Except EvalError Value) (n : Int) : Prop where
  integer : ∀ i : Int32, result = .ok (.int i) ↔ i.toInt = n
  overflow : result = .error .overflow ↔ ¬Fits n

theorem checked_eq_int_iff {number : Option Int32} {i : Int32} :
    checked number = .ok (.int i) ↔ number = some i := by
  cases number <;> simp [checked]

theorem checked_eq_overflow_iff {number : Option Int32} :
    checked number = .error .overflow ↔ number = none := by
  cases number <;> simp [checked]

theorem checked_ne_division {number : Option Int32} :
    checked number ≠ .error .divisionByZero := by
  cases number <;> simp [checked]

theorem exact_checked (n : Int) : Exact (checked (Integer.ofInt? n)) n where
  integer _ := checked_eq_int_iff.trans Integer.ofInt?_eq_some_iff
  overflow := checked_eq_overflow_iff.trans Integer.ofInt?_eq_none_iff

variable {op : Operator} {left right : Value} {a b : Int32}

theorem ofValue?_of_bits? (h : bits? left = some a) : Numeric.ofValue? left = some (.whole a) := by
  unfold bits? at h
  split at h <;> cases h <;> rfl

theorem negate_integer (h : bits? left = some a) :
    unary .negate left = checked (Integer.ofInt? (-a.toInt)) := by
  unfold bits? at h
  split at h
  · rename_i b
    cases h
    cases b <;> rfl
  · cases h
    rfl
  · cases h

/-- On integers and booleans every arithmetic operator is one on integers; a sum of them is no text
and no container. -/
theorem binary_integers (hleft : bits? left = some a) (hright : bits? right = some b)
    (op : Operator) (hop : op ∈ [.add, .subtract, .multiply, .divide, .modulo, .power]) :
    binary op left right = onIntegers op a b := by
  have harithmetic : arithmetic op left right = onIntegers op a b := by
    unfold arithmetic
    rw [ofValue?_of_bits? hleft, ofValue?_of_bits? hright]
  rw [← harithmetic]
  simp only [List.mem_cons, List.not_mem_nil, or_false] at hop
  obtain rfl | rfl | rfl | rfl | rfl | rfl := hop
  · unfold bits? at hleft
    split at hleft
    · rfl
    · rfl
    · cases hleft
  all_goals rfl

theorem division_by_zero_iff (hop : op = .divide ∨ op = .modulo) :
    onIntegers op a b = .error .divisionByZero ↔ b = 0 := by
  by_cases hzero : b = 0
  · obtain rfl | rfl := hop <;> simp [onIntegers, hzero]
  · obtain rfl | rfl := hop <;> simp [onIntegers, hzero, checked_ne_division]

theorem onIntegers_divide (h : b ≠ 0) :
    onIntegers .divide a b = checked (Integer.ofInt? (a.toInt.tdiv b.toInt)) := by
  simp [onIntegers, h, Integer.div?]

theorem onIntegers_modulo (h : b ≠ 0) : onIntegers .modulo a b = checked (Integer.rem? a b) := by
  simp [onIntegers, h]

theorem onIntegers_power (h : 0 ≤ b.toInt) :
    onIntegers .power a b = checked (Integer.ofInt? (a.toInt ^ b.toInt.toNat)) := by
  simp [onIntegers, h, Integer.pow?_eq]

/-- Arithmetic on integers, booleans counting as `0` and `1`, is exact: the result is the number
itself if it is in range, and an overflow if it is not. The quotient is truncated toward zero. The
remainder of the smallest integer by `-1` is an overflow although it is zero; every other one is
exact. -/
theorem integers_exact (hleft : bits? left = some a) (hright : bits? right = some b) :
    Exact (binary .add left right) (a.toInt + b.toInt) ∧
    Exact (binary .subtract left right) (a.toInt - b.toInt) ∧
    Exact (binary .multiply left right) (a.toInt * b.toInt) ∧
    (binary .divide left right = .error .divisionByZero ↔ b = 0) ∧
    (b ≠ 0 → Exact (binary .divide left right) (a.toInt.tdiv b.toInt)) ∧
    (binary .modulo left right = .error .divisionByZero ↔ b = 0) ∧
    (b ≠ 0 →
      (binary .modulo left right = .error .overflow ↔ a = Int32.minValue ∧ b = -1) ∧
      (¬(a = Int32.minValue ∧ b = -1) →
        Exact (binary .modulo left right) (a.toInt - b.toInt * a.toInt.tdiv b.toInt))) ∧
    (0 ≤ b.toInt → Exact (binary .power left right) (a.toInt ^ b.toInt.toNat)) ∧
    (b.toInt < 0 → ∃ x, binary .power left right = .ok (.float x)) ∧
    Exact (unary .negate left) (-a.toInt) := by
  have hintegers := binary_integers hleft hright
  rw [hintegers .add (by decide), hintegers .subtract (by decide), hintegers .multiply (by decide),
    hintegers .divide (by decide), hintegers .modulo (by decide), hintegers .power (by decide),
    negate_integer hleft]
  refine ⟨exact_checked _, exact_checked _, exact_checked _, division_by_zero_iff (.inl rfl), ?_,
    division_by_zero_iff (.inr rfl), ?_, ?_, ?_, exact_checked _⟩
  · intro hb
    rw [onIntegers_divide hb]
    exact exact_checked _
  · intro hb
    rw [onIntegers_modulo hb]
    constructor
    · rw [checked_eq_overflow_iff, Integer.rem?_eq_none_iff hb, Integer.fits_tdiv_iff, not_not]
    · intro hquotient
      rw [Integer.rem?_of_fits ((Integer.fits_tdiv_iff a b).mpr hquotient)]
      exact exact_checked _
  · intro hexponent
    rw [onIntegers_power hexponent]
    exact exact_checked _
  · intro hnegative
    simp [onIntegers, Int.not_le.mpr hnegative]

/-- The largest exponent there is, and a quotient of zero. -/
theorem largest_operand_exact :
    bits? (.int (-1)) = some (-1) ∧ bits? (.int Int32.maxValue) = some Int32.maxValue ∧
      binary .power (.int (-1)) (.int Int32.maxValue) = .ok (.int (-1)) ∧
      binary .modulo (.int (-1)) (.int Int32.maxValue) = .ok (.int (-1)) ∧
      binary .subtract (.int (-1)) (.int Int32.maxValue) = .ok (.int Int32.minValue) := by
  obtain ⟨-, hsubtract, -, -, -, -, hmodulo, hpower, -⟩ :=
    @integers_exact (.int (-1)) (.int Int32.maxValue) (-1) Int32.maxValue rfl rfl
  obtain ⟨-, hremainder⟩ := hmodulo (by decide)
  have hodd : (-1 : Int) = (-1) ^ Int32.maxValue.toInt.toNat :=
    (Odd.neg_one_pow (by decide)).symm
  exact ⟨rfl, rfl, ((hpower (by decide)).integer (-1)).mpr hodd,
    ((hremainder (by decide)).integer (-1)).mpr (by decide),
    (hsubtract.integer Int32.minValue).mpr (by decide)⟩

/-- The remainder of the smallest integer by `-1` is zero, which fits, and still an overflow. -/
theorem smallest_remainder_overflows :
    ¬∀ {left right : Value} {a b : Int32}, bits? left = some a → bits? right = some b → b ≠ 0 →
      Exact (binary .modulo left right) (a.toInt - b.toInt * a.toInt.tdiv b.toInt) := by
  intro hclaim
  have hexact := @hclaim (.int Int32.minValue) (.int (-1)) Int32.minValue (-1) rfl rfl (by decide)
  exact absurd (hexact.overflow.mp rfl) (by decide)

end Operation

end BuildScript
