/-!
The operators with their binding strength and grouping. A lower precedence binds tighter; operators
of one precedence group alike, so a waiting operator and an incoming one always know which of them
applies first.
-/

namespace BuildScript

inductive Operator where
  | member
  | arrayAccess
  | not
  | negate
  | power
  | multiply
  | divide
  | modulo
  | add
  | subtract
  | less
  | lessEqual
  | greater
  | greaterEqual
  | equal
  | notEqual
  | bitAnd
  | bitXor
  | bitOr
  | and
  | or
  | assign
  | addAssign
  | subtractAssign
  | multiplyAssign
  | divideAssign
  | moduloAssign
  | powerAssign
  deriving DecidableEq, Repr, Inhabited

inductive Associativity where
  | left
  | right
  deriving DecidableEq

namespace Operator

def precedence : Operator → Nat
  | member | arrayAccess => 1
  | not | negate => 2
  | power => 3
  | multiply | divide | modulo => 4
  | add | subtract => 5
  | less | lessEqual | greater | greaterEqual => 7
  | equal | notEqual => 8
  | bitAnd => 9
  | bitXor => 10
  | bitOr => 11
  | and => 12
  | or => 13
  | assign | addAssign | subtractAssign | multiplyAssign | divideAssign | moduloAssign
  | powerAssign => 15

/-- The operator a compound assignment applies before it stores. -/
def compoundBase? : Operator → Option Operator
  | addAssign => some add
  | subtractAssign => some subtract
  | multiplyAssign => some multiply
  | divideAssign => some divide
  | moduloAssign => some modulo
  | powerAssign => some power
  | _ => none

def isAssignment (op : Operator) : Bool := op == assign || op.compoundBase?.isSome

def associativity (op : Operator) : Associativity :=
  match op with
  | not | negate | power => .right
  | _ => if op.isAssignment then .right else .left

/-- Whether the operator stands between two operands. -/
def isBinary : Operator → Bool
  | not | negate | member | arrayAccess => false
  | _ => true

/-- Whether a waiting operator takes its operands before `incoming` is considered. -/
def reducesBefore (waiting incoming : Operator) : Bool :=
  waiting.precedence < incoming.precedence ||
    (waiting.precedence == incoming.precedence && incoming.associativity == .left)

def symbol : Operator → String
  | member => "."
  | arrayAccess => "[]"
  | not => "!"
  | negate | subtract => "-"
  | power => "**"
  | multiply => "*"
  | divide => "/"
  | modulo => "%"
  | add => "+"
  | less => "<"
  | lessEqual => "<="
  | greater => ">"
  | greaterEqual => ">="
  | equal => "=="
  | notEqual => "!="
  | bitAnd => "&"
  | bitXor => "^"
  | bitOr => "|"
  | and => "&&"
  | or => "||"
  | assign => "="
  | addAssign => "+="
  | subtractAssign => "-="
  | multiplyAssign => "*="
  | divideAssign => "/="
  | moduloAssign => "%="
  | powerAssign => "**="

end Operator

end BuildScript
