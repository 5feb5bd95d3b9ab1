import BuildScript.Expr.Basic

/-!
Operator precedence. Operands joined by binary operators, each with its prefix operators, become
one tree. Operators wait on a stack together with the operand to their left; before an incoming
operator joins them, every waiting one that binds at least as tightly takes the operand read last.
-/

namespace BuildScript

/-- An operand with the prefix operators before it, outermost first. -/
structure Term where
  prefixes : List Operator
  operand : Expr

/-- An operator whose right operand is not complete. -/
inductive Waiting where
  | unary (op : Operator)
  | binary (left : Expr) (op : Operator)

namespace Waiting

def op : Waiting → Operator
  | unary op => op
  | binary _ op => op

/-- The tree once the right operand is complete. -/
def apply (waiting : Waiting) (operand : Expr) : Expr :=
  match waiting with
  | unary op => .unary op operand
  | binary left op => .binary op left operand

/-- Lets the operators that go before `incoming` take the operand; the rest keep waiting. -/
def reduce (incoming : Operator) : List Waiting → Expr → List Waiting × Expr
  | [], operand => ([], operand)
  | waiting :: stack, operand =>
    if waiting.op.reducesBefore incoming then reduce incoming stack (waiting.apply operand)
    else (waiting :: stack, operand)

/-- Every operator of the stack takes its operand, innermost first. -/
def finish (stack : List Waiting) (operand : Expr) : Expr :=
  stack.foldl (fun operand waiting => waiting.apply operand) operand

end Waiting

/-- Terms joined by binary operators. -/
structure Chain where
  first : Term
  others : List (Operator × Term)

namespace Chain

/-- The stack after the prefix operators of a term were put on it. -/
def pushPrefixes (prefixes : List Operator) (stack : List Waiting) : List Waiting :=
  prefixes.foldl (fun stack op => .unary op :: stack) stack

def resolve (stack : List Waiting) (operand : Expr) : List (Operator × Term) → Expr
  | [] => Waiting.finish stack operand
  | (op, term) :: others =>
    let (stack, left) := Waiting.reduce op stack operand
    resolve (pushPrefixes term.prefixes (.binary left op :: stack)) term.operand others

def toExpr (chain : Chain) : Expr :=
  resolve (pushPrefixes chain.first.prefixes []) chain.first.operand chain.others

end Chain

end BuildScript
