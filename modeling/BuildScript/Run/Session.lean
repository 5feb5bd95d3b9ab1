import BuildScript.Run.Item

/-!
Using an interpreter from outside: feeding it files and lines, asking for names and values, and
registering classes and native functions. The embedding program answers calls of its entry points
and may go back into the interpreter while it does. How deep calls, includes and such returns can
nest is known beforehand, so a run is a recursion over that budget.
-/

namespace BuildScript

/-- The ways back into the interpreter during a call of the embedding program. -/
structure Reentry where
  evalLine : String → Machine → Flow × Machine
  callValue : Value → List Operand → Machine → Except Fault Operand × Machine

/-- What the embedding program does for each of its entry points. -/
abbrev Host := String → Reentry → List Operand → Machine → Except Fault Value × Machine

namespace Host

/-- A program with no entry points. -/
def none : Host := fun _ _ _ m => (.ok .nothing, m)

end Host

namespace Session

open Eval (machine update)

/-- Ends a fed line: a fault that unwound to it is reported here. -/
def settle (result : Eval Flow) : Eval Flow := do
  match ← Eval.attempt result with
  | .ok flow => return flow
  | .error fault => do
    Eval.report fault
    return .error

/-- Runs the tokens of one line. Blocks may stay open from line to line. -/
def feedTokens (tokens : List Token) : Eval Flow := do
  let (items, _) := Item.ofTokens (← machine).line tokens []
  settle (Run.runLine 1 false items)

/-- Evaluates tokens that form a single expression. -/
def feedExpression (tokens : List Token) : Eval Flow :=
  settle do Run.expressionFlow (← Run.parsed (Expr.parse tokens))

def feedLine (text : String) : Eval Flow := do
  match Lexed.ofLine text with
  | .ok lexed => feedTokens lexed.tokens
  | .error e => do
    Eval.report (.parse e)
    return .error

def reentry (ctx : Context) : Reentry :=
  { evalLine := fun text m =>
      match feedLine text ctx m with
      | (.ok flow, m) => (flow, m)
      | (.error _, m) => (.error, m)
    callValue := fun function args => Eval.callValue function args ctx }

/-- The context of an evaluation that may nest so many bodies, files and returns of the embedding
program. -/
def context (host : Host) : Nat → List Anchor → Context
  | 0, held =>
    { runBody := fun _ _ _ m =>
        (.error (.eval (.callDepthExceeded m.options.maxCallDepth)), m)
      callHost := fun _ _ _ m =>
        (.error (.eval (.callDepthExceeded m.options.maxCallDepth)), m)
      held }
  | budget + 1, held =>
    { runBody := fun held lines inFunction => Run.runLines lines inFunction (context host budget held)
      callHost := fun held entry args => host entry (reentry (context host budget held)) args
      held }

/-- How deep returns of the embedding program may nest. -/
def hostAllowance : Nat := 4096

/-- How deep a machine can nest from where it stands: one file to begin with, and what is left of
each depth. -/
def budget (m : Machine) : Nat :=
  1 + (m.options.maxCallDepth - m.callDepth) + (m.options.maxIncludeDepth - m.includeDepth) +
    hostAllowance

/-- Runs an evaluation from outside. -/
def run {α : Type} (host : Host) (x : Eval α) (m : Machine) : Except Fault α × Machine :=
  x (context host (budget m) []) m

/-- Runs an evaluation that settles its faults itself. -/
def runFlow (host : Host) (x : Eval Flow) (m : Machine) : Flow × Machine :=
  match run host x m with
  | (.ok flow, m) => (flow, m)
  | (.error _, m) => (.error, m)

def evalLine (host : Host) (text : String) : Machine → Flow × Machine := runFlow host (feedLine text)

/-- Evaluates tokens, as a whole statement line or as a single expression. -/
def evalTokens (host : Host) (tokens : List Token) (isStart : Bool) : Machine → Flow × Machine :=
  runFlow host (if isStart then feedTokens tokens else feedExpression tokens)

/-- Runs a text as a file of the given name; true if no error was reported while it ran. -/
def runSource (host : Host) (name text : String) (m : Machine) : Bool × Machine :=
  match run host (Eval.runSource name text) m with
  | (.ok ok, m) => (ok, m)
  | (.error _, m) => (false, m)

/-- Runs a file. One that cannot be read is reported in its own name. -/
def runFile (host : Host) (path : String) (m : Machine) : Bool × Machine :=
  match m.files.readText path with
  | .ok text => runSource host path text m
  | .error e =>
    let m := { m with file := path, line := 0, errorFlag := false }
    (false, m.report (.eval (.io path e.message)))

def callValue (host : Host) (function : Value) (args : List Operand) :
    Machine → Except Fault Operand × Machine :=
  run host (Eval.callValue function args)

/-- Binds a global name, which must be new. -/
def defineGlobal (m : Machine) (name : String) (value : Value) : Except EvalError Machine :=
  (m.env.defineGlobal name value).map fun env => { m with env }

/-- A native function that calls an entry point, with an identity of its own. -/
def newNative (m : Machine) (name reported : String) (arity : Nat) (entry : String) :
    Except EvalError (NativeFunction × Machine) :=
  if arity > NativeFunction.largestArity then .error (.nativeArity name arity)
  else .ok (⟨m.nextId, reported, arity, .host entry⟩, { m with nextId := m.nextId + 1 })

/-- Binds a global name to a native function. -/
def registerNative (m : Machine) (name : String) (arity : Nat) (entry : String) :
    Except EvalError Machine := do
  let (native, m) ← newNative m name name arity entry
  defineGlobal m name (.atom (.function (.native native) none))

/-- A class with one more native method, whose arity counts the receiver. -/
def addNativeMethod (m : Machine) (template : ClassTemplate) (name : String) (arity : Nat)
    (entry : String) : Except EvalError (ClassTemplate × Machine) := do
  let (native, m) ← newNative m name (template.name ++ "." ++ name) arity entry
  return ({ template with methods := template.methods ++ [(name, .native native)] }, m)

/-- A class without methods, not registered yet. -/
def newClass (m : Machine) (name : String) (fields : List Field) : ClassTemplate × Machine :=
  (⟨m.nextId, name, fields, []⟩, { m with nextId := m.nextId + 1 })

/-- Puts a changed class in place of the registered one of the same name, as a definition of its
own: to those that hold the old class it is another. -/
def replaceClass (m : Machine) (changed : ClassTemplate) : Machine :=
  let changed := { changed with id := m.nextId }
  { m with
    classes := m.classes.replaceFirst changed
    nextId := m.nextId + 1 }

/-- Gives a registered class one more native method. The class counts as changed even if the method
asks for too many operands. -/
def registerNativeMethod (m : Machine) (className name : String) (arity : Nat) (entry : String) :
    Option EvalError × Machine :=
  match m.classes.find? className with
  | none => (some (.unknownClass className), m)
  | some template =>
    match addNativeMethod m template name arity entry with
    | .ok (changed, m) => (none, replaceClass m changed)
    | .error e => (some e, replaceClass m template)

/-- A fresh object of the named class; what is wrong with its fields is reported. -/
def instantiate (m : Machine) (className : String) : Value × Machine :=
  let (value, faults) := m.classes.instantiate className
  (value, m.reportAll faults)

end Session

end BuildScript
