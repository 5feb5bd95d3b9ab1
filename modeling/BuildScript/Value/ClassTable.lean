import BuildScript.EvalError
import BuildScript.Value.Basic

/-!
Classes and the values fresh declarations start with. Numbers start at zero, text and containers
empty, a `function` variable without a value and an object with its fields at their own start. A
class inside itself has no start, so its field is left out; an unknown class gives a placeholder
whose members fail on first use. What was left out or unknown is listed in order.
-/

namespace BuildScript

abbrev ClassTable := List ClassTemplate

namespace ClassTable

def find? (classes : ClassTable) (name : String) : Option ClassTemplate :=
  List.find? (·.name == name) classes

/-- Puts a class in place of the first one with its name. -/
def replaceFirst (classes : ClassTable) (template : ClassTemplate) : ClassTable :=
  match classes with
  | [] => []
  | first :: rest =>
    if first.name == template.name then template :: rest else first :: replaceFirst rest template

/-- An object of the named class, given the start of its fields under the classes being
expanded. -/
def expand (start : List String → DataType → Option Value × List EvalError)
    (classes : ClassTable) (pending : List String) (name : String) : Value × List EvalError :=
  match classes.find? name with
  | none => (.object "" [] [], [.unknownClass name])
  | some template =>
    let pending := template.name :: pending
    let fields := template.fields.map fun field => (field, start pending field.type)
    let values := fields.filterMap fun (field, value, _) => value.map (field.name, ·)
    let faults := fields.flatMap fun (field, value, faults) =>
      match value with
      | some _ => faults
      | none => faults ++ [.unsupportedFieldType template.name field.name field.type]
    (.object template.name values template.methods, faults)

/-- The start of a type. Every level expands another known class, so one unit of fuel more than
there are classes, and one for the unknown ones, is enough. -/
def startWithin : Nat → ClassTable → List String → DataType → Option Value × List EvalError
  | 0, _, _, _ => (none, [])
  | fuel + 1, classes, pending, type =>
    match type with
    | .bool => (some (.bool false), [])
    | .int => (some (.int 0), [])
    | .float => (some (.float 0.0), [])
    | .string => (some (.string ""), [])
    | .macroText => (some (.macroText ""), [])
    | .list => (some (.list []), [])
    | .function => (some .nothing, [])
    | .array element => (if element == .void then none else some (.array element []), [])
    | .object name =>
      if pending.contains name then (none, [])
      else
        let (value, faults) := expand (startWithin fuel classes) classes pending name
        (some value, faults)
    | .void | .procedure | .classTemplate | .typeName => (none, [])

def enoughFuel (classes : ClassTable) : Nat := classes.length + 2

/-- The value a fresh declaration of a type holds, if the type can be declared. -/
def start (classes : ClassTable) (type : DataType) : Option Value × List EvalError :=
  startWithin classes.enoughFuel classes [] type

/-- A fresh object of the named class. -/
def instantiate (classes : ClassTable) (name : String) : Value × List EvalError :=
  expand (startWithin classes.enoughFuel classes) classes [] name

/-- The built-in classes, whose one method gives the size of a value. -/
def builtin : ClassTable :=
  [("Array", 0), ("List", 1), ("String", 2)].map fun (name, id) =>
    { id := 3 + id
      name := name
      fields := []
      methods := [("size", .native ⟨id, name ++ ".size", 1, .size⟩)] }

/-- The first identity no built-in definition has. -/
def firstFreeId : Identity := 6

end ClassTable

end BuildScript
