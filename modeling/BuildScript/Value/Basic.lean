import BuildScript.Value.Callable

/-!
Values. An atom has no parts; arrays, lists and objects are made of values. A value is a tree of its
own: what a variable shares with another is storage, never the value in it.
-/

namespace BuildScript

inductive Atom where
  /-- No value: an identifier that did not resolve, or with an empty name the result of a call that
  returned nothing. -/
  | void (name : String)
  | bool (value : Bool)
  | int (value : Int32)
  | float (value : Float32)
  | string (text : String)
  | macroText (text : String)
  | typeName (type : DataType)
  /-- A function, bound to an object if it was taken from one. -/
  | function (callable : Callable) (receiver : Option ObjectId)
  | procedure (procedure : Procedure)
  | classTemplate (template : ClassTemplate)

namespace Atom

def type : Atom → DataType
  | void _ => .void
  | bool _ => .bool
  | int _ => .int
  | float _ => .float
  | string _ => .string
  | macroText _ => .macroText
  | typeName _ => .typeName
  | function _ _ => .function
  | procedure _ => .procedure
  | classTemplate _ => .classTemplate

def ofLiteral : Literal → Atom
  | .bool value => bool value
  | .int value => int value
  | .float value => float value
  | .string value => string value

end Atom

inductive Value where
  | atom (atom : Atom)
  /-- Elements of one type. The type is void for the empty array literal. -/
  | array (element : DataType) (items : List Value)
  | list (items : List Value)
  /-- An instance of a class; the class name is empty if the class was never found. -/
  | object (className : String) (fields : List (String × Value))
      (methods : List (String × Callable))

namespace Value

@[match_pattern] abbrev void (name : String) : Value := .atom (.void name)
@[match_pattern] abbrev bool (value : Bool) : Value := .atom (.bool value)
@[match_pattern] abbrev int (value : Int32) : Value := .atom (.int value)
@[match_pattern] abbrev float (value : Float32) : Value := .atom (.float value)
@[match_pattern] abbrev string (text : String) : Value := .atom (.string text)
@[match_pattern] abbrev macroText (text : String) : Value := .atom (.macroText text)

/-- The result of a call that returned nothing. -/
def nothing : Value := void ""

instance : Inhabited Value := ⟨nothing⟩

def type : Value → DataType
  | atom a => a.type
  | array element _ => .array element
  | list _ => .list
  | object className _ _ => .object className

def isVoid : Value → Bool
  | void _ => true
  | _ => false

/-- Elements of a container or characters of a string. -/
def size? : Value → Option Nat
  | array _ items | list items => some items.length
  | string text => some text.length
  | _ => none

/-- The text of a string or of outside text. -/
def text? : Value → Option String
  | string text | macroText text => some text
  | _ => none

end Value

end BuildScript
