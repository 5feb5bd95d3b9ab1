import BuildScript.Expr.Basic
import BuildScript.Token.Lexer

/-!
Statements as source text. Every part of an expression is written in parentheses, so no precedence is
needed to read it back. A member of the receiver has a blank before its point, and in string literals
backslashes and quotes are escaped. How a float is written is left open: only the digits before and
after its point are asked for.
-/

namespace BuildScript

/-- A name that a script can give and use: a word that is no keyword and no literal. -/
structure IsName (name : String) : Prop where
  spelled : ∃ c cs, name.toList = c :: cs ∧ Lexeme.isWordStart c = true ∧
    ∀ d ∈ cs, Lexeme.isWordChar d = true
  free : Lexed.wordKind name = .identifier name

/-- Digits with a point among them, at least one before it. -/
structure Decimal where
  first : Char
  whole : List Char
  fraction : List Char
  first_digit : first.isDigit = true
  whole_digits : ∀ c ∈ whole, c.isDigit = true
  fraction_digits : ∀ c ∈ fraction, c.isDigit = true

namespace Decimal

def source (decimal : Decimal) : String :=
  String.ofList (decimal.first :: decimal.whole ++ '.' :: decimal.fraction)

/-- The float nearest to the decimal. -/
def value (decimal : Decimal) : Float32 :=
  Single.ofDecimal (Lexeme.digitsToNat (decimal.first :: decimal.whole ++ decimal.fraction))
    decimal.fraction.length

end Decimal

/-- Backslashes and quotes with a backslash before them. -/
def escaped : List Char → List Char
  | [] => []
  | '\\' :: rest => '\\' :: '\\' :: escaped rest
  | '"' :: rest => '\\' :: '"' :: escaped rest
  | c :: rest => c :: escaped rest

section Sources

variable (decimal : Float32 → Decimal)

def Literal.source : Literal → String
  | .bool true => "true"
  | .bool false => "false"
  | .int value => toString value.toInt
  | .float value => (decimal value).source
  | .string value => "\"" ++ String.ofList (escaped value.toList) ++ "\""

namespace Expr

mutual

def source : Expr → String
  | .literal value => value.source decimal
  | .identifier name => name
  | .ownMember name => " ." ++ name
  | .declare type name => type.text ++ " " ++ name
  | .arrayLiteral elements => "[" ++ ",".intercalate (enclosedSources elements) ++ "]"
  | .unary op operand => op.symbol ++ "(" ++ operand.source ++ ")"
  | .binary .arrayAccess array index => "(" ++ array.source ++ ")[(" ++ index.source ++ ")]"
  | .binary op left right => "(" ++ left.source ++ ")" ++ op.symbol ++ "(" ++ right.source ++ ")"
  | .member object name => "(" ++ object.source ++ ")." ++ name
  | .call callee arguments =>
    "(" ++ callee.source ++ ")(" ++ ",".intercalate (enclosedSources arguments) ++ ")"
  | .cast type arguments =>
    type.text ++ "(" ++ ",".intercalate (enclosedSources arguments) ++ ")"

/-- Elements or arguments, each in parentheses. -/
def enclosedSources : List Expr → List String
  | [] => []
  | expr :: others => ("(" ++ expr.source ++ ")") :: enclosedSources others

end

end Expr

def Parameter.source (param : Parameter) : String :=
  param.type.text ++ (if param.byReference then " &" else " ") ++ param.name

def Header.source : Header → String
  | .function ⟨name, returnType, params⟩ =>
    returnType.text ++ " " ++ name ++ "(" ++ ",".intercalate (params.map Parameter.source) ++ ")"
  | .classNamed name => "class " ++ name
  | .procedure name => "procedure " ++ name

def Statement.source : Statement → String
  | .expression expr => expr.source decimal
  | .declaration header => header.source

end Sources

/-- A type as it is written: a keyword, the name of a class that is no keyword, or an array. -/
inductive DataType.Writable : DataType → Prop
  | keyword {type : DataType} (h : DataType.ofKeyword? type.text = some type) : Writable type
  | object {className : String} (hname : IsName className)
    (hfree : DataType.ofKeyword? className = none) : Writable (.object className)
  | array {element : DataType} (h : Writable element) : Writable (.array element)

/-- An expression that the surface syntax has. A float is written so that it is the nearest to its
digits. -/
inductive Expr.Writable (decimal : Float32 → Decimal) : Expr → Prop
  | bool (value : Bool) : Writable decimal (.literal (.bool value))
  | int {value : Int32} (h : 0 ≤ value.toInt ∨ value = Int32.minValue) :
    Writable decimal (.literal (.int value))
  | float {value : Float32} (h : (decimal value).value = value) :
    Writable decimal (.literal (.float value))
  | string (value : String) : Writable decimal (.literal (.string value))
  | identifier {name : String} (hname : IsName name) : Writable decimal (.identifier name)
  | ownMember {name : String} (hname : IsName name) : Writable decimal (.ownMember name)
  | declare {type : DataType} {name : String} (htype : type.Writable) (hname : IsName name) :
    Writable decimal (.declare type name)
  | arrayLiteral {elements : List Expr} (h : ∀ element ∈ elements, Writable decimal element) :
    Writable decimal (.arrayLiteral elements)
  | unary {op : Operator} {operand : Expr} (hop : op = .not ∨ op = .negate)
    (h : Writable decimal operand) : Writable decimal (.unary op operand)
  | binary {op : Operator} {left right : Expr} (hop : op.isBinary = true)
    (hleft : Writable decimal left) (hright : Writable decimal right) :
    Writable decimal (.binary op left right)
  | index {array index : Expr} (harray : Writable decimal array)
    (hindex : Writable decimal index) : Writable decimal (.binary .arrayAccess array index)
  | member {object : Expr} {name : String} (hobject : Writable decimal object)
    (hname : IsName name) : Writable decimal (.member object name)
  | call {callee : Expr} {arguments : List Expr} (hcallee : Writable decimal callee)
    (h : ∀ argument ∈ arguments, Writable decimal argument) :
    Writable decimal (.call callee arguments)
  | cast {type : DataType} {arguments : List Expr}
    (htype : DataType.ofKeyword? type.text = some type)
    (h : ∀ argument ∈ arguments, Writable decimal argument) :
    Writable decimal (.cast type arguments)

structure Parameter.Writable (param : Parameter) : Prop where
  type : param.type.Writable
  name : IsName param.name

inductive Header.Writable : Header → Prop
  | function {name : String} {returnType : DataType} {params : List Parameter}
    (hname : IsName name) (htype : returnType.Writable)
    (h : ∀ param ∈ params, param.Writable) : Writable (.function ⟨name, returnType, params⟩)
  | classNamed {name : String} (hname : IsName name) : Writable (.classNamed name)
  | procedure {name : String} (hname : IsName name) : Writable (.procedure name)

inductive Statement.Writable (decimal : Float32 → Decimal) : Statement → Prop
  | expression {expr : Expr} (h : expr.Writable decimal) : Writable decimal (.expression expr)
  | declaration {header : Header} (h : header.Writable) : Writable decimal (.declaration header)

namespace DataType

theorem ofKeyword?_ne_array {word : String} {element : DataType} :
    ofKeyword? word ≠ some (.array element) := by
  unfold ofKeyword?
  split <;> nofun

theorem text_object {className : String} (hname : IsName className) :
    (object className).text = className := by
  obtain ⟨⟨c, cs, htext, -⟩, -⟩ := hname
  refine if_neg fun hempty => ?_
  rw [String.isEmpty_iff] at hempty
  rw [hempty] at htext
  cases htext

end DataType

end BuildScript
