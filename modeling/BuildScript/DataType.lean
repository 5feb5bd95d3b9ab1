/-!
The types of values. Two array types agree when their element types do, and two object types when
they name the same class. The conversion table is reflexive, lets the numeric types convert among
each other, and lets the array without an element type convert to every array type.
-/

namespace BuildScript

inductive DataType where
  /-- No value; a parameter of this type takes anything. -/
  | void
  | bool
  | int
  | float
  | string
  /-- Text handed in from outside the script. -/
  | macroText
  | array (element : DataType)
  | list
  | function
  | procedure
  | classTemplate
  /-- An instance of the named class; the name is empty if no such class was found. -/
  | object (className : String)
  /-- A type keyword used as a value. -/
  | typeName
  deriving DecidableEq, Inhabited

namespace DataType

/-- The type a keyword names. Class names are no keywords. -/
def ofKeyword? (word : String) : Option DataType :=
  match word with
  | "void" => some .void
  | "bool" => some .bool
  | "int" => some .int
  | "float" => some .float
  | "string" => some .string
  | "macro" => some .macroText
  | "list" => some .list
  | "function" => some .function
  | _ => none

def isNumeric : DataType → Bool
  | bool | int | float => true
  | _ => false

/-- The built-in class that holds the methods of plain values of this type. -/
def builtinClass? : DataType → Option String
  | array _ => some "Array"
  | list => some "List"
  | string => some "String"
  | _ => none

def text : DataType → String
  | void => "void"
  | bool => "bool"
  | int => "int"
  | float => "float"
  | string => "string"
  | macroText => "macro"
  | array element => element.text ++ "[]"
  | list => "list"
  | function => "function"
  | procedure => "procedure"
  | classTemplate => "class"
  | object className => if className.isEmpty then "object" else className
  | typeName => "type"

def convertsTo (source target : DataType) : Bool :=
  source == target ||
    match source, target with
    | array element, array _ => element == void
    | _, _ => source.isNumeric && target.isNumeric

end DataType

end BuildScript
