import BuildScript.Eval.Monad
import BuildScript.Value.Operation

/-!
Operands over storage: resolving names, reading, assigning and declaring, and the members of
objects.
-/

namespace BuildScript.Eval

/-- Names stand for type keywords, then for what a scope binds, then for built-in functions, then
for classes; any other name stays without a value. -/
def resolve (m : Machine) (name : String) : Operand :=
  match DataType.ofKeyword? name with
  | some type => .ofValue (.atom (.typeName type))
  | none =>
    match m.env.scopes.lookup name with
    | some slot => .reference slot
    | none =>
      match Builtin.ofName? name with
      | some builtin => .ofValue (.atom (.function (.builtin builtin) none))
      | none =>
        match m.classes.find? name with
        | some template => .ofValue (.atom (.classTemplate template))
        | none => .ofValue (.void name)

def valueIn (m : Machine) : Operand → Value
  | .reference slot => m.env.load slot
  | .temporary value _ => value

/-- The type of an operand, read off its top without its parts. -/
def typeIn (m : Machine) : Operand → DataType
  | .reference slot => m.env.memory.typeOf (m.env.memory.content slot)
  | .temporary value _ => value.type

/-- The placeholder an operand without a value carries. -/
def voidIn? (m : Machine) (operand : Operand) : Option String :=
  match operand with
  | .reference slot =>
    match m.env.memory.content slot with
    | .atom (.void name) => some name
    | _ => none
  | .temporary (.void name) _ => some name
  | .temporary _ _ => none

def valueOf (operand : Operand) : Eval Value := do return valueIn (← machine) operand

def typeOf (operand : Operand) : Eval DataType := do return typeIn (← machine) operand

/-- The operand, which must have a value. -/
def require (operand : Operand) : Eval Operand := do
  match voidIn? (← machine) operand with
  | some name => raise (if name.isEmpty then .noValue else .notDeclared name)
  | none => return operand

/-- The value of an expression that must have one. -/
def valueBy (x : Eval Operand) : Eval Value := do valueOf (← require (← x))

/-- What a value has to become to be stored where another lies: a slot keeps its type, and one
without a value takes any. -/
def stored (target : DataType) (source : Value) : Except EvalError Value :=
  if target == .void then .ok source else source.convert target

/-- Stores a value through an operand. -/
def assign (target : Operand) (source : Value) : Eval Operand := do
  match target with
  | .temporary value _ => raise (.assignToNonReference value.text)
  | .reference slot =>
    let value ← stored (typeIn (← machine) target) source
    update fun m => { m with env := m.env.write slot value }
    return target

/-- Binds a name to a fresh slot in the innermost scope. -/
def define (name : String) (value : Value) : Eval Slot := do
  let m ← machine
  let (slot, env) ← m.env.define name value
  update fun m => { m with env }
  return slot

def bind (name : String) (slot : Slot) : Eval Unit := do
  let m ← machine
  let env ← m.env.bind name slot
  update fun m => { m with env }

/-- The value a declaration without an initial value starts with. -/
def startOf (type : DataType) (name : String) : Eval Value := do
  let (value, faults) := (← machine).classes.start type
  update (·.reportAll faults)
  match value with
  | some value => return value
  | none => raise (.invalidDeclaration name type)

/-- Declares a variable, converting its initial value to its type. -/
def declare (type : DataType) (name : String) (initial : Option Value) : Eval Operand := do
  let value ←
    match initial with
    | some value => Eval.ofExcept (value.convert type)
    | none => startOf type name
  return .reference (← define name value)

/-- Gives a value without storage a place. -/
def place (value : Value) : Eval Content := do
  let (content, memory) := (← machine).env.memory.place value
  update fun m => { m with env := { m.env with memory } }
  return content

/-- The object an operand holds, if it holds one. -/
def objectOf (operand : Operand) : Eval (Option ObjectId) := do
  match operand with
  | .reference slot =>
    match (← machine).env.memory.content slot with
    | .object id => return some id
    | _ => return none
  | .temporary (.object className fields methods) _ =>
    match ← place (.object className fields methods) with
    | .object id => return some id
    | _ => return none
  | .temporary _ _ => return none

/-- The method a plain value of a type has from its built-in class. -/
def builtinMethod? (m : Machine) (type : DataType) (name : String) : Option Callable := do
  let className ← type.builtinClass?
  let template ← m.classes.find? className
  template.method? name

/-- An object that is no placeholder of an unknown class. -/
def instantiated (id : ObjectId) (member : String) : Eval Instance := do
  let object := (← machine).env.memory.instanceOf id
  if object.className.isEmpty then raise (.uninstantiatedObject member) else return object

/-- A member of a value. Fields are references, and methods come bound to their object; methods of
built-in classes can only be called. -/
def memberOf (target : Operand) (name : String) : Eval Operand := do
  match ← objectOf target with
  | none =>
    let m ← machine
    let type := typeIn m target
    raise (if (builtinMethod? m type name).isSome then .methodNotCalled name
      else .noSuchMember type name)
  | some id =>
    let object ← instantiated id name
    match lookupName name object.fields, lookupName name object.methods with
    | some slot, _ => return .reference slot
    | none, some method => return .ofValue (.atom (.function method (some id)))
    | none, none => raise (.noSuchMember (.object object.className) name)

/-- The receiver of the running method. -/
def receiver : Eval Operand := do
  match (← machine).env.scopes.lookup "this" with
  | some slot => return .reference slot
  | none => raise .thisOutsideMethod

/-- Whether an object still exists: some scope leads to it, or something held does. -/
def isAlive (m : Machine) (held : List Anchor) (id : ObjectId) : Bool :=
  m.env.scopes.slots.any (m.env.memory.reaches id) ||
    held.any fun
      | .slot slot => m.env.memory.reaches id slot
      | .object other =>
        other == id ||
          (m.env.memory.instanceOf other).fields.any fun (_, slot) => m.env.memory.reaches id slot

end BuildScript.Eval
