import BuildScript.Number.Single

/-!
Reading a single precision number from its text: a sign, digits with at most one point among them,
and an optional decimal exponent, rounded to the nearest number; or the name of an infinity or of
the number that is none.
-/

namespace BuildScript.Single

/-- A number of decimal digits; the text must hold nothing else. -/
def natOfDigits? (digits : List Char) : Option Nat :=
  if digits.all Char.isDigit then
    some (digits.foldl (fun n c => n * 10 + (c.toNat - '0'.toNat)) 0)
  else none

/-- A sign taken off the front; true stands for a minus. -/
def splitSign : List Char → Bool × List Char
  | '-' :: rest => (true, rest)
  | '+' :: rest => (false, rest)
  | rest => (false, rest)

def isExponentMark (c : Char) : Bool := c == 'e' || c == 'E'

/-- The exponent after its mark, or zero if there is none. -/
def exponentOf? : List Char → Option Int
  | [] => some 0
  | _ :: text =>
    let (negative, digits) := splitSign text
    if digits.isEmpty then none
    else (natOfDigits? digits).map fun n => if negative then -n else n

/-- A text without sign. -/
def magnitudeOf? (text : List Char) : Option Float32 := do
  let mantissa := text.takeWhile (!isExponentMark ·)
  let exponent ← exponentOf? (text.dropWhile (!isExponentMark ·))
  let whole := mantissa.takeWhile (· != '.')
  let fraction := (mantissa.dropWhile (· != '.')).drop 1
  if whole.isEmpty && fraction.isEmpty then none
  let digits ← natOfDigits? (whole ++ fraction)
  let places := fraction.length - exponent
  if places ≥ 0 then return ofDecimal digits places.toNat
  else return ofDecimal (digits * Nat.pow 10 (-places).toNat) 0

def ofText? (text : String) : Option Float32 :=
  let (negative, text) := splitSign text.toList
  let magnitude :=
    match (String.ofList text).toLower with
    | "nan" => some (0.0 / 0.0)
    | "inf" | "infinity" => some (1.0 / 0.0)
    | _ => magnitudeOf? text
  magnitude.map fun x => if negative then -x else x

end BuildScript.Single
