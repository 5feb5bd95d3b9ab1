import BuildScript.Number.Shortest
import BuildScript.Value.Basic

/-!
The text of a value, as `string` and `print` give it. Text inside a container is not quoted.
-/

namespace BuildScript

def Atom.text : Atom → String
  | void name => if name.isEmpty then "void" else name
  | bool value => if value then "true" else "false"
  | int value => toString value.toInt
  | float value => Single.text value
  | string text | macroText text => text
  | typeName type => type.text
  | function callable _ => "function " ++ callable.name
  | procedure p => "procedure " ++ p.name
  | classTemplate template => "class " ++ template.name

namespace Value

mutual

def text : Value → String
  | atom a => a.text
  | array _ items | list items => "[" ++ ", ".intercalate (itemTexts items) ++ "]"
  | object className fields _ =>
    (DataType.object className).text ++ "\x7b" ++ ", ".intercalate (fieldTexts fields) ++ "\x7d"

def itemTexts : List Value → List String
  | [] => []
  | item :: rest => item.text :: itemTexts rest

def fieldTexts : List (String × Value) → List String
  | [] => []
  | (name, value) :: rest => (name ++ ": " ++ value.text) :: fieldTexts rest

end

end Value

end BuildScript
