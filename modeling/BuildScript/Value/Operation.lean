import BuildScript.Value.Convert
import BuildScript.Value.Same

/-!
The operators on values. Booleans count as integers; two integers stay exact and any number besides
makes both sides single precision. Text compares and concatenates with text whichever of its two
kinds it is. Every operation gives a value of its own and changes neither operand.
-/

namespace BuildScript

/-- A number after booleans were counted as integers. -/
inductive Numeric where
  | whole (value : Int32)
  | single (value : Float32)

namespace Numeric

def ofValue? : Value → Option Numeric
  | .bool b => some (whole (Integer.ofBool b))
  | .int i => some (whole i)
  | .float x => some (single x)
  | _ => none

def toSingle : Numeric → Float32
  | whole i => Single.ofInt i.toInt
  | single x => x

/-- The order of two numbers, integers exactly. What is no number has no order. -/
def compare? : Numeric → Numeric → Option Ordering
  | whole a, whole b => some (compareOfLessAndEq a.toInt b.toInt)
  | a, b =>
    let x := a.toSingle
    let y := b.toSingle
    if x < y then some .lt else if x == y then some .eq else if y < x then some .gt else none

end Numeric

namespace Operation

def invalid (op : Operator) (left right : Value) : EvalError :=
  .invalidOperands op left.type right.type

def checked (result : Option Int32) : Except EvalError Value :=
  match result with
  | some n => .ok (.int n)
  | none => .error .overflow

def onIntegers (op : Operator) (a b : Int32) : Except EvalError Value :=
  match op with
  | .add => checked (Integer.add? a b)
  | .subtract => checked (Integer.sub? a b)
  | .multiply => checked (Integer.mul? a b)
  | .divide => if b == 0 then .error .divisionByZero else checked (Integer.div? a b)
  | .modulo => if b == 0 then .error .divisionByZero else checked (Integer.rem? a b)
  | .power =>
    if 0 ≤ b.toInt then checked (Integer.pow? a b.toInt.toNat)
    else .ok (.float (Float32.pow (Single.ofInt a.toInt) (Single.ofInt b.toInt)))
  | _ => .error (invalid op (.int a) (.int b))

def onSingles (op : Operator) (a b : Float32) : Except EvalError Value :=
  match op with
  | .add => .ok (.float (a + b))
  | .subtract => .ok (.float (a - b))
  | .multiply => .ok (.float (a * b))
  | .divide => .ok (.float (a / b))
  | .modulo => .ok (.float (Single.remainder a b))
  | .power => .ok (.float (Float32.pow a b))
  | _ => .error (invalid op (.float a) (.float b))

def arithmetic (op : Operator) (left right : Value) : Except EvalError Value :=
  match Numeric.ofValue? left, Numeric.ofValue? right with
  | some (.whole a), some (.whole b) => onIntegers op a b
  | some a, some b => onSingles op a.toSingle b.toSingle
  | _, _ => .error (invalid op left right)

/-- The order of two texts by their characters' code points. -/
def compareText (a b : String) : Ordering := compareOfLessAndEq a b

/-- Whether the order of two operands satisfies a relational operator. -/
def satisfies (op : Operator) (order : Ordering) : Bool :=
  match op with
  | .less => order.isLT
  | .lessEqual => order.isLE
  | .greater => order.isGT
  | _ => order.isGE

def ordering (op : Operator) (left right : Value) : Except EvalError Value :=
  match Numeric.ofValue? left, Numeric.ofValue? right with
  | some a, some b => .ok (.bool ((a.compare? b).any (satisfies op)))
  | _, _ =>
    match left.text?, right.text? with
    | some a, some b => .ok (.bool (satisfies op (compareText a b)))
    | _, _ => .error (invalid op left right)

/-- Whether two operands are equal, if they can be compared at all. -/
def equal? (left right : Value) : Option Bool :=
  match Numeric.ofValue? left, Numeric.ofValue? right with
  | some a, some b => some ((a.compare? b).any Ordering.isEq)
  | _, _ =>
    match left.text?, right.text? with
    | some a, some b => some (a == b)
    | _, _ => if left.type == right.type then some (left.same right) else none

def equality (op : Operator) (left right : Value) : Except EvalError Value :=
  match equal? left right with
  | some equal => .ok (.bool (if op == .notEqual then !equal else equal))
  | none => .error (invalid op left right)

/-- The integer of an integer or a boolean. -/
def bits? : Value → Option Int32
  | .bool b => some (Integer.ofBool b)
  | .int i => some i
  | _ => none

def bitwise (op : Operator) (left right : Value) : Except EvalError Value :=
  match left, right with
  | .bool a, .bool b =>
    .ok (.bool (match op with
      | .bitAnd => a && b
      | .bitOr => a || b
      | _ => a ^^ b))
  | left, right =>
    match bits? left, bits? right with
    | some a, some b =>
      .ok (.int (match op with
        | .bitAnd => a &&& b
        | .bitOr => a ||| b
        | _ => a ^^^ b))
    | _, _ => .error (invalid op left right)

def logic (op : Operator) (left right : Value) : Except EvalError Value := do
  let a ← left.asBool
  let b ← right.asBool
  return .bool (if op == .and then a && b else a || b)

/-- Outside text stays outside text only when both sides are. -/
def joinText (left right : Value) : Option Value :=
  match left, right with
  | .macroText a, .macroText b => some (.macroText (a ++ b))
  | left, right =>
    match left.text?, right.text? with
    | some a, some b => some (.string (a ++ b))
    | _, _ => none

/-- Two arrays in a row; an array without element type takes that of the other. -/
def concatArrays (s : DataType) (xs : List Value) (t : DataType) (ys : List Value) :
    Except EvalError Value :=
  if s == .void then .ok (.array t (xs ++ ys))
  else if t == .void || s == t then .ok (.array s (xs ++ ys))
  else .error (.arrayElementType (.array s) (.array t))

/-- An array with one more element, if that element can become one. -/
def append? (element : DataType) (items : List Value) (item : Value) :
    Option (Except EvalError Value) :=
  if element != .void && item.type.convertsTo element then
    some ((item.convert element).map fun item => .array element (items ++ [item]))
  else none

def addToContainer (left right : Value) : Except EvalError Value :=
  match left with
  | .list xs =>
    match right with
    | .list ys => .ok (.list (xs ++ ys))
    | item => .ok (.list (xs ++ [item]))
  | .array element xs =>
    match append? element xs right with
    | some result => result
    | none =>
      match right with
      | .array t ys => concatArrays element xs t ys
      | item =>
        if element == .void then .ok (.array item.type [item])
        else .error (.arrayElementType element item.type)
  | left => .error (invalid .add left right)

def add (left right : Value) : Except EvalError Value :=
  match joinText left right with
  | some joined => .ok joined
  | none =>
    match left with
    | .array _ _ | .list _ => addToContainer left right
    | left => arithmetic .add left right

/-- A binary operator other than the assignments and indexing, on two values. -/
def binary (op : Operator) (left right : Value) : Except EvalError Value :=
  match op with
  | .add => add left right
  | .subtract | .multiply | .divide | .modulo | .power => arithmetic op left right
  | .less | .lessEqual | .greater | .greaterEqual => ordering op left right
  | .equal | .notEqual => equality op left right
  | .bitAnd | .bitXor | .bitOr => bitwise op left right
  | .and | .or => logic op left right
  | _ => .error (invalid op left right)

def unary (op : Operator) (value : Value) : Except EvalError Value :=
  match op, value with
  | .negate, .int i => checked (Integer.neg? i)
  | .negate, .float x => .ok (.float (-x))
  | .negate, .bool b => .ok (.int (-Integer.ofBool b))
  | .not, value =>
    if value.type.isNumeric then value.asBool.map fun b => .bool (!b)
    else .error (.invalidOperand op value.type)
  | op, value => .error (.invalidOperand op value.type)

end Operation

end BuildScript
