import BuildScript.Eval.Builtin

/-!
Calls. A body runs in a scope of its own that sees its parameters and the global names. Everything
about the arguments is checked before the body begins, and the caller's place is restored whatever
the body does.
-/

namespace BuildScript.Eval

/-- What a parameter will be bound to: the argument's own slot, or a value of its own. -/
inductive Bound where
  | shared (slot : Slot)
  | fresh (value : Value)

/-- An argument made ready for its parameter, the position counting from one. A shared slot has to
have exactly the parameter's type, and a value has to convert to it; `void` takes any. -/
def boundFor (m : Machine) (function : String) (position : Nat) (param : Parameter)
    (arg : Operand) : Except EvalError Bound :=
  let found := typeIn m arg
  let mismatch : EvalError := .argumentType function position param.type found
  match param.byReference, arg with
  | true, .reference slot =>
    if param.type == .void || param.type == found then .ok (.shared slot) else .error mismatch
  | true, .temporary _ _ => .error (.referenceRequired function position)
  | false, arg =>
    if param.type == .void then .ok (.fresh (valueIn m arg))
    else if found.convertsTo param.type then
      ((valueIn m arg).convert param.type).map .fresh
    else .error mismatch

/-- Makes the arguments of a call ready, in order. -/
def bindAll (function : String) (position : Nat) :
    List (Parameter × Operand) → Eval (List (String × Bound))
  | [] => return []
  | (param, arg) :: rest => do
    let arg ← require arg
    let bound ← Eval.ofExcept (boundFor (← machine) function position param arg)
    let others ← bindAll function (position + 1) rest
    return (param.name, bound) :: others

/-- Binds the receiver of a method, whose object the name then shares. -/
def defineReceiver (id : ObjectId) : Eval Unit := do
  let m ← machine
  let (slot, memory) := m.env.memory.push (.object id)
  update fun m => { m with env := { m.env with memory } }
  bind "this" slot

def bindParameters : List (String × Bound) → Eval Unit
  | [] => return
  | (name, .shared slot) :: rest => do
    bind name slot
    bindParameters rest
  | (name, .fresh value) :: rest => do
    let _ ← define name value
    bindParameters rest

def checkCallDepth : Eval Unit := do
  let m ← machine
  if m.callDepth ≥ m.options.maxCallDepth then raise (.callDepthExceeded m.options.maxCallDepth)

/-- Runs something as the body of a call declared in `file`, and comes back to the caller's place
however it ends. -/
def inFrame {α : Type} (file : String) (body : Eval α) : Eval α := do
  let caller ← machine
  update fun m =>
    { m with
      file := file
      lastIf := none
      callDepth := m.callDepth + 1
      env := { m.env with scopes := m.env.scopes.push .call } }
  let result ← attempt body
  update fun m =>
    { m with
      file := caller.file
      line := caller.line
      lastIf := caller.lastIf
      callDepth := m.callDepth - 1
      env := { m.env with scopes := m.env.scopes.truncate caller.env.scopes.depth } }
  match result with
  | .ok a => return a
  | .error fault => fail fault

/-- The value a body's flow gives back. -/
def givenBack : Flow → Option Value
  | .giveBack value => value
  | _ => none

/-- The result of a function from what its body gave back. An array without element type takes the
declared one. -/
def checkReturn (function : UserFunction) (returned : Option Value) : Except EvalError Value :=
  match returned, function.returnType with
  | none, .void => .ok .nothing
  | none, expected => .error (.missingReturn function.name expected)
  | some value, .void => .error (.returnType function.name .void value.type)
  | some value, expected =>
    if value.type == expected then .ok value
    else
      match expected, value.type with
      | .array _, .array .void => value.convert expected
      | _, found => .error (.returnType function.name expected found)

def callUser (function : UserFunction) (receiver : Option ObjectId) (args : List Operand) :
    Eval Operand := do
  checkCallDepth
  if args.length != function.params.length then
    raise (.argumentCount function.name function.params.length args.length)
  let bound ← bindAll function.name 1 (function.params.zip args)
  let flow ← inFrame function.file do
    match receiver with
    | some id => defineReceiver id
    | none => pure ()
    bindParameters bound
    runBody function.body true
  return .ofValue (← Eval.ofExcept (checkReturn function (givenBack flow)))

def callProcedure (procedure : Procedure) (args : List Operand) : Eval Operand := do
  checkCallDepth
  if !args.isEmpty then raise (.argumentCount procedure.name 0 args.length)
  let flow ← inFrame procedure.file (runBody procedure.body true)
  match givenBack flow with
  | some value => raise (.returnType procedure.name .void value.type)
  | none => return .nothing

/-- The size of the receiver: elements of a container or characters of a string. -/
def sizeOf (args : List Value) : Except EvalError Value :=
  match args with
  | [] => .error .noValue
  | value :: _ =>
    match value.size? with
    | some n => (Integer.ofCount n).map .int
    | none => .error (.noSuchMember value.type "size")

/-- Calls a native function. A receiver comes before the arguments, and everything handed over is
held during the call. -/
def callNative (native : NativeFunction) (receiver : Option ObjectId) (args : List Operand) :
    Eval Operand := do
  let memory := (← machine).env.memory
  let args :=
    match receiver with
    | some id => .ofValue (memory.loadInstance id) :: args
    | none => args
  if args.length != native.arity then
    raise (.argumentCount native.name native.arity args.length)
  let anchors := (receiver.map Anchor.object).toList ++ args.flatMap Operand.anchors
  match native.body with
  | .size => return .ofValue (← Eval.ofExcept (sizeOf (args.map (valueIn (← machine)))))
  | .host entry => return .ofValue (← holding anchors (callHost entry args))

def callFunction (callable : Callable) (receiver : Option ObjectId) (args : List Operand) :
    Eval Operand :=
  match callable with
  | .builtin builtin => callBuiltin builtin args
  | .native native => callNative native receiver args
  | .user function => callUser function receiver args

/-- Calls what a value stands for. A bound method needs its object to exist still. -/
def callValue (function : Value) (args : List Operand) : Eval Operand := do
  match function with
  | .atom (.function callable none) => callFunction callable none args
  | .atom (.function callable (some id)) =>
    if isAlive (← machine) (args.flatMap Operand.anchors ++ (← held)) id then
      callFunction callable (some id) args
    else raise .danglingReceiver
  | .atom (.procedure procedure) => callProcedure procedure args
  | other => raise (.notCallable other.type)

/-- Calls a member of an object: a method, or a field that holds a function, taken before the
arguments are evaluated. -/
def callObject (target : Operand) (id : ObjectId) (name : String) (args : Eval (List Operand)) :
    Eval Operand := do
  let object ← instantiated id name
  let holdingTarget {α : Type} : Eval α → Eval α := holding (.object id :: target.anchors)
  match lookupName name object.methods, lookupName name object.fields with
  | some method, _ => do
    let args ← holdingTarget args
    let kept :=
      match target with
      | .reference slot => [.slot slot]
      | .temporary _ _ => [.object id]
    holding kept (callFunction method (some id) args)
  | none, some slot => do
    let function ← valueOf (.reference slot)
    holdingTarget do callValue function (← args)
  | none, none => raise (.noSuchMember (.object object.className) name)

/-- Calls a member of a value. Values that are no objects have the methods of their built-in class,
which take the value as their first argument. -/
def callMember (target : Operand) (name : String) (args : Eval (List Operand)) :
    Eval Operand := do
  match ← objectOf target with
  | some id => callObject target id name args
  | none =>
    let m ← machine
    let type := typeIn m target
    match builtinMethod? m type name with
    | none => raise (.noSuchMember type name)
    | some method =>
      let args ← holding target.anchors args
      callFunction method none (target :: args)

end BuildScript.Eval
