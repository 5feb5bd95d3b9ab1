import BuildScript.DataType
import BuildScript.Token.Basic

/-!
Expression trees and statement headers. Operator precedence is resolved in the tree, so evaluating
one is a plain walk.
-/

namespace BuildScript

inductive Expr where
  | literal (value : Literal)
  /-- A name, resolved when the expression is evaluated. -/
  | identifier (name : String)
  /-- `.name`, a member of the running method's receiver. -/
  | ownMember (name : String)
  /-- `T name`, which binds the name in the innermost scope. -/
  | declare (type : DataType) (name : String)
  | arrayLiteral (elements : List Expr)
  | unary (op : Operator) (operand : Expr)
  /-- Infix operations, assignments and indexing among them. -/
  | binary (op : Operator) (left right : Expr)
  | member (object : Expr) (name : String)
  | call (callee : Expr) (arguments : List Expr)
  /-- `int(x)` and the other forms a type keyword begins. -/
  | cast (type : DataType) (arguments : List Expr)
  deriving Inhabited

structure Parameter where
  type : DataType
  name : String
  /-- The argument's slot is shared instead of copied. -/
  byReference : Bool
  deriving DecidableEq, Inhabited

/-- The header `T name(T a, T &b)` of a function. -/
structure Signature where
  name : String
  returnType : DataType
  params : List Parameter
  deriving DecidableEq, Inhabited

/-- What a declaration with a body announces. The body follows it in braces. -/
inductive Header where
  | function (signature : Signature)
  | classNamed (name : String)
  | procedure (name : String)
  deriving DecidableEq, Inhabited

def Header.name : Header → String
  | function signature => signature.name
  | classNamed name => name
  | procedure name => name

inductive Statement where
  | expression (expr : Expr)
  | declaration (header : Header)
  deriving Inhabited

end BuildScript
