import BuildScript.EvalError
import BuildScript.Number.Integer
import BuildScript.Number.Single
import BuildScript.Value.Basic

/-!
Conversion between types. Numbers convert among each other, toward zero when an integer is asked
for, and any number but zero is true. An array without elements takes whatever element type it is
given. A value that has the type already is given back.
-/

namespace BuildScript

namespace Integer

/-- The integer toward zero from a number, if it is finite and in range. -/
def ofSingle (x : Float32) : Except EvalError Int32 :=
  match (Single.truncate? x).bind ofInt? with
  | some n => .ok n
  | none => .error .overflow

/-- A count as an integer. -/
def ofCount (n : Nat) : Except EvalError Int32 :=
  match ofInt? n with
  | some n => .ok n
  | none => .error .overflow

/-- A position in a container of the given size. -/
def toIndex (index : Int32) (size : Nat) : Except EvalError Nat :=
  if 0 ≤ index.toInt ∧ index.toInt < size then .ok index.toInt.toNat
  else .error (.indexOutOfRange index.toInt size)

end Integer

namespace Atom

/-- The conversions between numbers. Every other atom is kept. -/
def convertNumber (a : Atom) (target : DataType) : Except EvalError Atom :=
  match a, target with
  | bool b, .int => .ok (int (Integer.ofBool b))
  | bool b, .float => .ok (float (if b then 1.0 else 0.0))
  | int i, .bool => .ok (bool (i != 0))
  | int i, .float => .ok (float (Single.ofInt i.toInt))
  | float x, .bool => .ok (bool (x != 0.0))
  | float x, .int => (Integer.ofSingle x).map int
  | a, _ => .ok a

end Atom

namespace Value

def convert (value : Value) (target : DataType) : Except EvalError Value :=
  if value.type.convertsTo target then
    match value, target with
    | atom a, target => (a.convertNumber target).map atom
    | array _ [], .array element => .ok (array element [])
    | value, _ => .ok value
  else .error (.notConvertible value.type target)

/-- The value as a condition. -/
def asBool (value : Value) : Except EvalError Bool :=
  match value.convert .bool with
  | .ok (bool b) => .ok b
  | .ok other => .error (.notConvertible other.type .bool)
  | .error e => .error e

def asInt (value : Value) : Except EvalError Int32 :=
  match value.convert .int with
  | .ok (int i) => .ok i
  | .ok other => .error (.notConvertible other.type .int)
  | .error e => .error e

/-- The value, unless it is none. -/
def require (value : Value) : Except EvalError Value :=
  match value with
  | void name => .error (if name.isEmpty then .noValue else .notDeclared name)
  | value => .ok value

end Value

end BuildScript
