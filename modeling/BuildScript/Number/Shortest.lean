import BuildScript.Number.Single

/-!
The text of a single precision number: the fewest decimal digits that read back to it, always
written positionally. A finite number is the middle of the interval of reals that round to it; the
coarsest decimal grid with a point in that interval gives the digits, and of two such points the
nearer is taken, an exact tie going up.
-/

namespace BuildScript.Single

/-- A positive number and the interval of reals that round to it, all over one denominator. -/
structure Rounding where
  value : Nat
  low : Nat
  high : Nat
  denominator : Nat
  /-- Whether the ends of the interval round to the number too. -/
  closed : Bool

/-- The interval of a mantissa and exponent: half a unit to each side, and only a quarter below a
power of two, where the numbers below lie twice as close. -/
def Rounding.ofParts (mantissa : Nat) (exponent : Int) : Rounding :=
  let up := Nat.pow 2 (exponent - 2).toNat
  let below := if mantissa == hiddenBit && exponent != leastExponent then 1 else 2
  { value := 4 * mantissa * up
    low := (4 * mantissa - below) * up
    high := (4 * mantissa + 2) * up
    denominator := Nat.pow 2 (2 - exponent).toNat
    closed := mantissa % 2 == 0 }

/-- Whether the point `n * unit / denominator'` lies in the interval, both brought to the common
denominator by the caller. -/
def Rounding.contains (r : Rounding) (point scale : Nat) : Bool :=
  if r.closed then r.low * scale ≤ point && point ≤ r.high * scale
  else r.low * scale < point && point < r.high * scale

/-- The multiple of `10 ^ exponent` that stands for the number, if that grid has one. -/
def Rounding.onGrid? (r : Rounding) (exponent : Int) : Option Nat :=
  let scale := Nat.pow 10 (-exponent).toNat
  let step := Nat.pow 10 exponent.toNat * r.denominator
  let value := r.value * scale
  let floor := value / step
  let down := r.contains (floor * step) scale
  let up := r.contains ((floor + 1) * step) scale
  if up && (!down || step ≤ 2 * (value - floor * step)) then some (floor + 1)
  else if down then some floor
  else none

/-- The digits and the decimal exponent of a positive number. Every number is itself a point of the
finest grid. -/
def shortestDecimal (mantissa : Nat) (exponent : Int) : Nat × Int :=
  let r := Rounding.ofParts mantissa exponent
  let hit := (List.range 188).findSome? fun (i : Nat) =>
    let grid : Int := 38 - i
    (r.onGrid? grid).map (·, grid)
  hit.getD (0, 0)

/-- Writes `digits * 10 ^ exponent` without an exponent. -/
def positional (digits : Nat) (exponent : Int) : String :=
  let text := toString digits
  if exponent ≥ 0 then
    text ++ String.ofList (List.replicate exponent.toNat '0')
  else
    let places := (-exponent).toNat
    let padded := List.replicate (places + 1 - text.length) '0' ++ text.toList
    let whole := padded.length - places
    String.ofList (padded.take whole ++ '.' :: padded.drop whole)

def text (x : Float32) : String :=
  match decode x with
  | .nan => "NaN"
  | .infinite negative => if negative then "-inf" else "inf"
  | .finite ⟨negative, mantissa, exponent⟩ =>
    let magnitude :=
      if mantissa == 0 then "0" else
        let (digits, place) := shortestDecimal mantissa exponent
        positional digits place
    if negative then "-" ++ magnitude else magnitude

end BuildScript.Single
