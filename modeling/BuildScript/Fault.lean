import BuildScript.EvalError
import BuildScript.SyntaxError

/-!
Anything a statement can fail with.
-/

namespace BuildScript

inductive Fault where
  | parse (error : SyntaxError)
  | eval (error : EvalError)
  deriving DecidableEq, Inhabited

namespace Fault

def message : Fault → String
  | parse error => error.message
  | eval error => error.message

/-- Whether the fault ends the whole chain of calls instead of one statement. -/
def isFatal : Fault → Bool
  | parse _ => false
  | eval error => error.isFatal

end Fault

end BuildScript
