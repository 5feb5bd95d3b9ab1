import BuildScript.Value.Convert

/-!
The arguments of a built-in function, which checks them one by one as it needs them.
-/

namespace BuildScript.Arguments

/-- The argument at a position, which must have a value. -/
def value (args : List Value) (index : Nat) : Except EvalError Value :=
  match args[index]? with
  | some value => value.require
  | none => .error .noValue

/-- The argument as text. -/
def text (function : String) (args : List Value) (index : Nat) : Except EvalError String := do
  let value ← value args index
  match value.text? with
  | some text => return text
  | none => throw (.argumentType function (index + 1) .string value.type)

/-- The argument as an integer, which any number in range converts to. -/
def int (function : String) (args : List Value) (index : Nat) : Except EvalError Int32 := do
  let value ← value args index
  match value.asInt with
  | .ok n => return n
  | .error _ => throw (.argumentType function (index + 1) .int value.type)

end BuildScript.Arguments
