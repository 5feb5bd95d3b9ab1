import BuildScript.DataType
import BuildScript.Operator

/-!
What can go wrong while a statement is evaluated.
-/

namespace BuildScript

inductive EvalError where
  | notDeclared (name : String)
  | redefined (name : String)
  | notDefined (name : String)
  /-- The result of a call that returned nothing was used as a value. -/
  | noValue
  | assignToNonReference (target : String)
  | invalidOperands (op : Operator) (left right : DataType)
  | invalidOperand (op : Operator) (operand : DataType)
  | notConvertible (source target : DataType)
  | invalidDeclaration (name : String) (type : DataType)
  | arrayElementType (expected found : DataType)
  | argumentCount (name : String) (expected found : Nat)
  /-- The position counts from one. -/
  | argumentType (name : String) (position : Nat) (expected found : DataType)
  | referenceRequired (name : String) (position : Nat)
  | notCallable (type : DataType)
  | unknownClass (name : String)
  | classRedefined (name : String)
  | unsupportedFieldType (className field : String) (type : DataType)
  /-- A member of an object whose class was never found. -/
  | uninstantiatedObject (member : String)
  | noSuchMember (type : DataType) (member : String)
  | methodNotCalled (member : String)
  | indexOutOfRange (index : Int) (size : Nat)
  | notIndexable (type : DataType)
  | overflow
  | divisionByZero
  | missingReturn (name : String) (type : DataType)
  | returnType (name : String) (expected found : DataType)
  | returnOutsideFunction
  | elseWithoutIf
  | unmatchedBrace
  | unterminatedBlock
  | callDepthExceeded (limit : Nat)
  | includeDepthExceeded (limit : Nat)
  | thisOutsideMethod
  /-- The object a method was taken from no longer exists. -/
  | danglingReceiver
  | nativeArity (name : String) (arity : Nat)
  | io (path message : String)
  deriving DecidableEq, Inhabited

namespace EvalError

private def quote (text : String) : String := "'" ++ text ++ "'"

def message : EvalError → String
  | notDeclared name => quote name ++ " is not declared"
  | redefined name => quote name ++ " is redefined"
  | notDefined name => quote name ++ " is not defined"
  | noValue => "expression has no value"
  | assignToNonReference target => "assigning to non-reference " ++ quote target
  | invalidOperands op left right =>
    "operator " ++ quote op.symbol ++ " cannot be applied to " ++ left.text ++ " and " ++ right.text
  | invalidOperand op operand =>
    "operator " ++ quote op.symbol ++ " cannot be applied to " ++ operand.text
  | notConvertible source target => "cannot convert " ++ source.text ++ " to " ++ target.text
  | invalidDeclaration name type => "cannot declare " ++ quote name ++ " with type " ++ type.text
  | arrayElementType expected found =>
    "array element type mismatch: expected " ++ expected.text ++ ", found " ++ found.text
  | argumentCount name expected found =>
    quote name ++ " expects " ++ toString expected ++ " argument(s), found " ++ toString found
  | argumentType name position expected found =>
    "argument " ++ toString position ++ " of " ++ quote name ++ ": expected " ++ expected.text ++
      ", found " ++ found.text
  | referenceRequired name position =>
    "argument " ++ toString position ++ " of " ++ quote name ++ " must be a reference"
  | notCallable type => type.text ++ " is not callable"
  | unknownClass name => "unknown class " ++ quote name
  | classRedefined name => "class " ++ quote name ++ " is redefined"
  | unsupportedFieldType className field type =>
    "field " ++ quote field ++ " of class " ++ quote className ++ " has unsupported type " ++
      type.text
  | uninstantiatedObject member => "object of unknown class has no member " ++ quote member
  | noSuchMember type member => type.text ++ " has no member " ++ quote member
  | methodNotCalled member => "method " ++ quote member ++ " must be called"
  | indexOutOfRange index size =>
    "index " ++ toString index ++ " out of range for size " ++ toString size
  | notIndexable type => type.text ++ " cannot be indexed"
  | overflow => "integer overflow"
  | divisionByZero => "division by zero"
  | missingReturn name type => quote name ++ " must return " ++ type.text
  | returnType name expected found =>
    quote name ++ " returns " ++ expected.text ++ ", found " ++ found.text
  | returnOutsideFunction => "'return' outside of a function"
  | elseWithoutIf => "'else' without 'if'"
  | unmatchedBrace => "unmatched '\x7d'"
  | unterminatedBlock => "unterminated block"
  | callDepthExceeded limit => "maximum call depth of " ++ toString limit ++ " exceeded"
  | includeDepthExceeded limit => "maximum include depth of " ++ toString limit ++ " exceeded"
  | thisOutsideMethod => "'this' is only available inside methods"
  | danglingReceiver => "method receiver no longer exists"
  | nativeArity name arity =>
    "native function " ++ quote name ++ " has arity " ++ toString arity ++
      ", at most 5 is supported"
  | io path message => path ++ ": " ++ message

/-- Whether the error ends the whole chain of calls instead of one statement. -/
def isFatal : EvalError → Bool
  | callDepthExceeded _ | includeDepthExceeded _ => true
  | _ => false

end EvalError

end BuildScript
