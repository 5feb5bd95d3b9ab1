/-!
Integers of 32 bits with checked arithmetic: every operation is computed exactly on `Int` and gives
a result only if that result is in range.
-/

namespace BuildScript.Integer

/-- The integer `n` if 32 bits with a sign can hold it. -/
def ofInt? (n : Int) : Option Int32 :=
  if -0x80000000 ≤ n ∧ n < 0x80000000 then some (Int32.ofInt n) else none

def ofBool (b : Bool) : Int32 := if b then 1 else 0

def add? (a b : Int32) : Option Int32 := ofInt? (a.toInt + b.toInt)

def sub? (a b : Int32) : Option Int32 := ofInt? (a.toInt - b.toInt)

def mul? (a b : Int32) : Option Int32 := ofInt? (a.toInt * b.toInt)

def neg? (a : Int32) : Option Int32 := ofInt? (-a.toInt)

/-- The quotient truncated toward zero; the divisor is not zero. -/
def div? (a b : Int32) : Option Int32 := ofInt? (a.toInt.tdiv b.toInt)

/-- The remainder of the truncated division. It is out of range exactly when the quotient is. -/
def rem? (a b : Int32) : Option Int32 :=
  (div? a b).bind fun _ => ofInt? (a.toInt.tmod b.toInt)

/-- The power with a natural exponent. A base other than `0`, `1` and `-1` leaves the range before
its thirty-second power. -/
def pow? (a : Int32) (exponent : Nat) : Option Int32 :=
  if exponent < 32 then ofInt? (a.toInt.pow exponent)
  else if a == 0 || a == 1 then some a
  else if a == -1 then some (if exponent % 2 == 0 then 1 else -1)
  else none

end BuildScript.Integer
