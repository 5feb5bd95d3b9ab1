import Mathlib
import BuildScript.Number.Single

/-!
Single precision numbers as rationals. A finite one is truncated to the whole number toward zero.
Comparison is an equality on all of them but the one that is no number, and that one is no integer.
-/

namespace BuildScript.Single

open Float.Model (UnpackedFloat Format)

/-- The rational number that the parts stand for. -/
def Parts.value (parts : Parts) : ℚ :=
  (if parts.negative then -1 else 1) * (parts.mantissa * 2 ^ parts.exponent)

/-- The whole number toward zero. -/
def towardZero (q : ℚ) : Int := if q < 0 then ⌈q⌉ else ⌊q⌋

theorem towardZero_neg (q : ℚ) : towardZero (-q) = -towardZero q := by
  unfold towardZero
  rcases lt_trichotomy q 0 with hneg | rfl | hpos
  · rw [if_neg (by linarith), if_pos hneg, Int.floor_neg]
  · simp
  · rw [if_pos (by linarith), if_neg (by linarith), Int.ceil_neg]

theorem floor_scaled (mantissa : Nat) (exponent : Int) : ⌊(mantissa * 2 ^ exponent : ℚ)⌋ =
    (mantissa * Nat.pow 2 exponent.toNat / Nat.pow 2 (-exponent).toNat : Nat) := by
  have hquotient : (mantissa * 2 ^ exponent : ℚ) =
      ((mantissa * Nat.pow 2 exponent.toNat : Nat) : ℚ) / (Nat.pow 2 (-exponent).toNat : Nat) := by
    rcases le_total 0 exponent with hup | hdown
    · obtain ⟨k, rfl⟩ := Int.eq_ofNat_of_zero_le hup
      simp
    · obtain ⟨k, hk⟩ := Int.eq_ofNat_of_zero_le (Int.neg_nonneg_of_nonpos hdown)
      obtain rfl : exponent = -k := by omega
      simp [div_eq_mul_inv]
  rw [hquotient, Rat.floor_natCast_div_natCast]
  rfl

/-- The whole number `n` is what is left of `x` without its fraction; it has one if it is finite. -/
def Truncates (x : Float32) (n : Int) : Prop :=
  ∃ parts, decode x = .finite parts ∧ n = towardZero parts.value

theorem truncate?_eq_some_iff {x : Float32} {n : Int} :
    truncate? x = some n ↔ Truncates x n := by
  unfold truncate? Truncates
  cases decode x with
  | finite parts =>
    obtain ⟨negative, mantissa, exponent⟩ := parts
    have hfloor : towardZero (mantissa * 2 ^ exponent) =
        (mantissa * Nat.pow 2 exponent.toNat / Nat.pow 2 (-exponent).toNat : Nat) := by
      rw [← floor_scaled]
      exact if_neg (not_lt.mpr (by positivity))
    have hvalue : towardZero (Parts.value ⟨negative, mantissa, exponent⟩) =
        if negative then -towardZero (mantissa * 2 ^ exponent)
        else towardZero (mantissa * 2 ^ exponent) := by
      cases negative <;> simp [Parts.value, towardZero_neg]
    simp only [Datum.finite.injEq, exists_eq_left', hvalue, hfloor, Option.some.injEq]
    exact eq_comm
  | infinite negative => simp
  | nan => simp

/-- A number compares equal to itself unless it is none. -/
theorem beq_self (x : Float32) : (x == x) = !x.isNaN := by
  change UnpackedFloat.beq x.toModel.unpack x.toModel.unpack = !x.toModel.unpack.isNaN
  generalize x.toModel.unpack = unpacked
  cases unpacked with
  | notANumber => rfl
  | infinity sign => cases sign <;> rfl
  | zero sign => rfl
  | finite sign mantissa exponent hpositive =>
    cases sign <;> simp [UnpackedFloat.beq, UnpackedFloat.compare, UnpackedFloat.isNaN]

section Integers

variable {unpacked : UnpackedFloat} (format : Format)

/-- A number that is packed and unpacked again is still one. -/
theorem isNaN_unpack_pack (h : unpacked.isNaN = false) :
    (UnpackedFloat.unpack format (UnpackedFloat.pack format unpacked)).isNaN = false := by
  have hmantissa : UnpackedFloat.unpackExponent (UnpackedFloat.pack format unpacked) = -1#_ →
      UnpackedFloat.unpackMantissa (UnpackedFloat.pack format unpacked) = 0#_ := by
    fun_cases UnpackedFloat.pack format unpacked with
    | case1 => cases h
    | case2 sign | case4 sign => simp [UnpackedFloat.packedInfinity]
    | case3 sign => simp [UnpackedFloat.packedZero]
    | case5 sign mantissa exponent hpositive actual biased hsmall hnormal =>
      have hne : biased % 2 ^ format.exponentBits ≠ 2 ^ format.exponentBits - 1 := by
        rw [Nat.mod_eq_of_lt (by omega)]
        omega
      simp [BitVec.neg_one_eq_allOnes, ← BitVec.toNat_inj, hne]
    | case6 sign mantissa exponent hpositive actual biased hsmall hnormal =>
      simp [Nat.pos_iff_ne_zero.mp format.he]
  unfold UnpackedFloat.unpack
  dsimp only
  split
  · rename_i hexponent
    rw [if_pos (hmantissa hexponent)]
    rfl
  · split
    · split <;> rfl
    · rfl

theorem isNaN_ofModel_pack (h : unpacked.isNaN = false) :
    (Float32.ofModel (Float32.Model.pack unpacked)).isNaN = false := isNaN_unpack_pack _ h

theorem isNaN_round (sign : UnpackedFloat.Sign) (mantissa : Nat) (exponent : Int)
    (accuracy : UnpackedFloat.Accuracy) :
    (UnpackedFloat.roundWithAccuracy format sign mantissa exponent accuracy).isNaN = false := by
  unfold UnpackedFloat.roundWithAccuracy
  dsimp only
  split <;> rfl

theorem isNaN_mul_finite (h : unpacked.isNaN = false) (sign : UnpackedFloat.Sign) (mantissa : Nat)
    (exponent : Int) (hpositive : 0 < mantissa) :
    (unpacked.mul format (.finite sign mantissa exponent hpositive)).isNaN = false := by
  cases unpacked with
  | notANumber => cases h
  | infinity | zero => rfl
  | finite => exact isNaN_round format _ _ _ _

theorem isNaN_normalize (mantissa exponent : Int) (sign : UnpackedFloat.Sign) :
    (UnpackedFloat.normalize format mantissa exponent sign).isNaN = false := by
  unfold UnpackedFloat.normalize
  split
  · exact isNaN_round format _ _ _ _
  · rfl
  · exact isNaN_round format _ _ _ _

theorem ofNat_isNaN (n : Nat) : (Float32.ofNat n).isNaN = false := by
  change (Float32.ofScientific n false 0).isNaN = false
  unfold Float32.ofScientific
  split
  · -- A small number is multiplied by one.
    obtain ⟨sign, mantissa, exponent, hpositive, hone⟩ : ∃ sign mantissa exponent hpositive,
        (Float32.ofBits 0x3F800000).toModel.unpack =
          .finite sign mantissa exponent hpositive := ⟨_, _, _, _, rfl⟩
    apply isNaN_ofModel_pack
    change (UnpackedFloat.mul _ (UnpackedFloat.unpack _ (UnpackedFloat.pack _
      (UnpackedFloat.normalize _ _ _ _))) (Float32.ofBits 0x3F800000).toModel.unpack).isNaN = false
    rw [hone]
    exact isNaN_mul_finite _ (isNaN_unpack_pack _ (isNaN_normalize _ _ _ _)) _ _ _ _
  · apply isNaN_ofModel_pack
    unfold UnpackedFloat.ofScientific
    split
    · rfl
    · rw [if_neg (by decide), if_neg, if_pos (by decide)]
      · exact isNaN_mul_finite _ rfl _ _ _ _
      · simp

/-- No integer becomes something that is no number. -/
theorem ofInt_isNaN (n : Int) : (ofInt n).isNaN = false := by
  cases n with
  | ofNat n => exact ofNat_isNaN n
  | negSucc n =>
    apply isNaN_ofModel_pack
    have hnumber : (Float32.ofNat n.succ).toModel.unpack.isNaN = false := ofNat_isNaN n.succ
    cases hunpacked : (Float32.ofNat n.succ).toModel.unpack with
    | notANumber =>
      rw [hunpacked] at hnumber
      cases hnumber
    | infinity | zero | finite => rfl

end Integers

end BuildScript.Single
