import BuildScript.Eval.Call

/-!
The meaning of expressions: one combinator for each form, applied to the meanings of its parts.
Variables, elements and fields give references; everything else gives a temporary.
-/

namespace BuildScript.Eval

/-- The second operand of a logical operator is evaluated only if the first does not decide. -/
def logicWith (op : Operator) (left right : Eval Operand) : Eval Operand := do
  let first ← Eval.ofExcept (← valueBy left).asBool
  if first == (op == .or) then return .ofValue (.bool first)
  else return .ofValue (.bool (← Eval.ofExcept (← valueBy right).asBool))

def binaryWith (op : Operator) (left right : Eval Operand) : Eval Operand := do
  let a ← valueBy left
  let b ← valueBy right
  return .ofValue (← Eval.ofExcept (Operation.binary op a b))

def unaryWith (op : Operator) (operand : Eval Operand) : Eval Operand := do
  return .ofValue (← Eval.ofExcept (Operation.unary op (← valueBy operand)))

/-- The element of an array or list, which is a reference, or a character of a string. The container
is read after the index was evaluated. -/
def element (container : Operand) (index : Int32) : Eval Operand := do
  let elementOf (items : List Slot) : Eval Operand := do
    let i ← Eval.ofExcept (Integer.toIndex index items.length)
    match items[i]? with
    | some slot => return .reference slot
    | none => raise (.indexOutOfRange index.toInt items.length)
  match container with
  | .temporary (.array type items) _ =>
    match ← place (.array type items) with
    | .array _ slots => elementOf slots
    | _ => elementOf []
  | .temporary (.list items) _ =>
    match ← place (.list items) with
    | .list slots => elementOf slots
    | _ => elementOf []
  | .temporary value _ => character value
  | .reference slot =>
    match (← machine).env.memory.content slot with
    | .array _ slots | .list slots => elementOf slots
    | _ => character (← valueOf container)
where
  character (value : Value) : Eval Operand := do
    match value with
    | .string text =>
      let i ← Eval.ofExcept (Integer.toIndex index text.length)
      return .ofValue (.string (String.ofList ((text.toList.drop i).take 1)))
    | other => raise (.notIndexable other.type)

def indexWith (container index : Eval Operand) : Eval Operand := do
  let container ← require (← container)
  let position ← holding container.anchors (valueBy index)
  element container (← Eval.ofExcept position.asInt)

/-- `T name = value`: the value is evaluated before the name exists. -/
def declareWith (type : DataType) (name : String) (value : Eval Operand) : Eval Operand := do
  let initial ← valueBy value
  declare type name (some initial)

/-- An assignment evaluates its target first. A compound one applies its operator to the value the
target has after the other side was evaluated. -/
def assignWith (op : Operator) (target value : Eval Operand) : Eval Operand := do
  let target ← target
  let target ←
    match target with
    | .reference _ => pure target
    | .temporary _ _ => require target
  let source ← holding target.anchors (valueBy value)
  match op.compoundBase? with
  | none => assign target source
  | some base => do
    let current ← valueOf target
    assign target (← Eval.ofExcept (Operation.binary base current source))

/-- The first element decides the type of an array, and all others must have exactly it. -/
def arrayOf (values : List Value) : Except EvalError Value :=
  let type := (values.head?.map (·.type)).getD .void
  match values.find? (·.type != type) with
  | some other => .error (.arrayElementType type other.type)
  | none => .ok (.array type values)

def memberWith (object : Eval Operand) (name : String) : Eval Operand := do
  memberOf (← require (← object)) name

def callMemberWith (object : Eval Operand) (name : String) (args : Eval (List Operand)) :
    Eval Operand := do
  callMember (← require (← object)) name args

def callWith (callee : Eval Operand) (args : Eval (List Operand)) : Eval Operand := do
  let function ← valueBy callee
  callValue function (← args)

def castWith (type : DataType) (args : Eval (List Operand)) : Eval Operand :=
  match Builtin.castTo? type with
  | none => raise (.notCallable .typeName)
  | some builtin => do callBuiltin builtin (← args)

mutual

def evalExpr : Expr → Eval Operand
  | .literal value => return .temporary (.atom (.ofLiteral value)) true
  | .identifier name => return resolve (← machine) name
  | .ownMember name => do memberOf (← receiver) name
  | .declare type name => declare type name none
  | .arrayLiteral elements => do
    return .ofValue (← Eval.ofExcept (arrayOf (← evalValues elements)))
  | .unary op operand => unaryWith op (evalExpr operand)
  | .binary op left right =>
    if op == .arrayAccess then indexWith (evalExpr left) (evalExpr right)
    else if op == .and || op == .or then logicWith op (evalExpr left) (evalExpr right)
    else if op.isAssignment then
      match op, left with
      | .assign, .declare type name => declareWith type name (evalExpr right)
      | op, left => assignWith op (evalExpr left) (evalExpr right)
    else binaryWith op (evalExpr left) (evalExpr right)
  | .member object name => memberWith (evalExpr object) name
  | .call callee arguments =>
    match callee with
    | .member object name => callMemberWith (evalExpr object) name (evalArguments arguments)
    | .ownMember name => do callMember (← receiver) name (evalArguments arguments)
    | callee => callWith (evalExpr callee) (evalArguments arguments)
  | .cast type arguments => castWith type (evalArguments arguments)

/-- Evaluates expressions that must have values, in order. -/
def evalValues : List Expr → Eval (List Value)
  | [] => return []
  | expr :: rest => do
    let value ← valueBy (evalExpr expr)
    return value :: (← evalValues rest)

/-- Evaluates arguments in order, holding on to the references among them. -/
def evalArguments : List Expr → Eval (List Operand)
  | [] => return []
  | expr :: rest => do
    let operand ← evalExpr expr
    return operand :: (← holding operand.anchors (evalArguments rest))

end

/-- The value of an expression that must have one. -/
def evalValue (expr : Expr) : Eval Value := valueBy (evalExpr expr)

end BuildScript.Eval
