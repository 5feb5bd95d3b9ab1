/-!
Single precision numbers taken apart: a finite one is a sign, a whole mantissa below `2 ^ 24` and a
power of two. The exact remainder and the truncation to a whole number are computed on these parts.
-/

namespace BuildScript.Single

/-- The finite number `± mantissa * 2 ^ exponent`. -/
structure Parts where
  negative : Bool
  mantissa : Nat
  exponent : Int
  deriving DecidableEq

inductive Datum where
  | finite (parts : Parts)
  | infinite (negative : Bool)
  | nan
  deriving DecidableEq

/-- The exponent of the subnormal numbers and of the smallest normal ones. -/
def leastExponent : Int := -149

/-- The mantissa of a normal number is at least this. -/
def hiddenBit : Nat := 0x800000

def decode (x : Float32) : Datum :=
  let bits := x.toBits.toNat
  let negative := bits / 0x80000000 == 1
  let field := bits / hiddenBit % 0x100
  let fraction := bits % hiddenBit
  if field == 255 then
    if fraction == 0 then .infinite negative else .nan
  else if field == 0 then
    .finite ⟨negative, fraction, leastExponent⟩
  else
    .finite ⟨negative, hiddenBit + fraction, leastExponent + (field - 1 : Nat)⟩

/-- The number with the given parts, for a mantissa below `2 ^ 24` and an exponent that is not
below the least one. -/
def ofParts (parts : Parts) : Float32 :=
  let room := (parts.exponent - leastExponent).toNat
  let shift := min room (23 - parts.mantissa.log2)
  let mantissa := parts.mantissa * Nat.pow 2 shift
  let field := if mantissa < hiddenBit then 0 else room - shift + 1
  let sign := if parts.negative then 0x80000000 else 0
  Float32.ofBits (UInt32.ofNat (sign + field * hiddenBit + mantissa % hiddenBit))

/-- The whole number toward zero, for a finite number. -/
def truncate? (x : Float32) : Option Int :=
  match decode x with
  | .finite ⟨negative, mantissa, exponent⟩ =>
    let magnitude : Nat := mantissa * Nat.pow 2 exponent.toNat / Nat.pow 2 (-exponent).toNat
    some (if negative then -magnitude else magnitude)
  | _ => none

/-- The remainder of the division whose quotient is truncated: exact, with the sign of `x`. -/
def remainder (x y : Float32) : Float32 :=
  match decode x, decode y with
  | .finite a, .finite b =>
    if b.mantissa == 0 then 0.0 / 0.0 else
      let exponent := min a.exponent b.exponent
      let scaled (parts : Parts) := parts.mantissa * Nat.pow 2 (parts.exponent - exponent).toNat
      ofParts ⟨a.negative, scaled a % scaled b, exponent⟩
  | .finite _, .infinite _ => x
  | _, _ => 0.0 / 0.0

def ofInt (n : Int) : Float32 := Float32.ofInt n

/-- The nearest number to `digits / 10 ^ places`, a tie going to the even mantissa. -/
def ofDecimal (digits places : Nat) : Float32 := Float32.ofScientific digits true places

end BuildScript.Single
