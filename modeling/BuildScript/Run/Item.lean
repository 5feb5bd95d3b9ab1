import BuildScript.Run.Block
import BuildScript.Script.ClassBody

/-!
Running the items of a line. In a skipped scope nothing is evaluated, declared or reported, but
blocks open and close as they would, so the scope ends where it should.
-/

namespace BuildScript.Run

open Eval (machine update recover)

/-- Whether the innermost scope is skipped. Every item but an opening brace ends the wait for one. -/
def beginItem (item : Item) : Eval Bool := do
  match item with
  | .blockOpen => pure ()
  | _ => updateScopes (·.mapCurrent fun scope => { scope with awaitingBody := false })
  return (← scopes).current.skipping

def parsed {α : Type} : Except SyntaxError α → Eval α
  | .ok a => return a
  | .error e => Eval.fail (.parse e)

def conditionHolds (condition : Except SyntaxError Expr) : Eval Bool := do
  let expr ← parsed condition
  Eval.ofExcept (← Eval.evalValue expr).asBool

/-- The flow of an expression statement. A call that returned nothing is one; a name that does not
resolve is none. -/
def expressionFlow (expr : Expr) : Eval Flow := do
  let operand ← Eval.evalExpr expr
  if Eval.voidIn? (← machine) operand == some "" then return .nothing
  else return .value (← Eval.valueOf (← Eval.require operand))

/-- Evaluates something at the boundary of a statement. -/
def guarded (flow : Eval Flow) : Eval Flow := do
  match ← Eval.attempt flow with
  | .ok flow => return flow
  | .error fault => do
    recover fault
    return .error

/-- Adds one entry of a class body: a member joins the class, and a fault is reported at its
line. The identities of the methods follow that of the class. -/
def addEntry (template : ClassTemplate) (entry : ClassEntry) : Eval ClassTemplate := do
  update fun m => { m with line := entry.line }
  match entry.entry with
  | .error e => do
    recover (.parse e)
    return template
  | .ok (.field type name) => return { template with fields := template.fields ++ [⟨type, name⟩] }
  | .ok (.method signature body) => do
    let function : UserFunction :=
      { id := template.id + template.methods.length + 1
        name := signature.name
        params := signature.params
        returnType := signature.returnType
        body
        file := (← machine).file
        line := entry.line
        isMethod := true }
    return { template with methods := template.methods ++ [(signature.name, .user function)] }

def addEntries (template : ClassTemplate) : List ClassEntry → Eval ClassTemplate
  | [] => return template
  | entry :: rest => do addEntries (← addEntry template entry) rest

/-- Builds a class from what is valid in its body. -/
def buildClass (name : String) (body : List Text.SourceLine) : Eval ClassTemplate := do
  let m ← machine
  let template ← addEntries ⟨m.nextId, name, [], []⟩ (ClassEntry.ofLines body)
  update fun after => { after with line := m.line }
  return template

/-- Registers a class under a name that is new. -/
def registerTemplate (template : ClassTemplate) : Eval Unit := do
  let registered ← Eval.ofExcept ((← machine).registerClass template)
  update fun _ => registered

/-- Binds the function or procedure, or registers the class, that a header declares. Only then are
its identities given out. -/
def declareHeader (header : Header) (body : List Text.SourceLine) : Eval Unit := do
  let m ← machine
  match header with
  | .function signature => do
    let function : UserFunction :=
      { id := m.nextId
        name := signature.name
        params := signature.params
        returnType := signature.returnType
        body
        file := m.file
        line := m.line
        isMethod := false }
    let _ ← Eval.define signature.name (.atom (.function (.user function) none))
    Eval.giveIds 1
  | .procedure name => do
    let _ ← Eval.define name (.atom (.procedure ⟨m.nextId, name, body, m.file, m.line⟩))
    Eval.giveIds 1
  | .classNamed name => do
    let template ← buildClass name body
    registerTemplate template
    Eval.giveIds (template.methods.length + 1)

/-- The value a `return` gives back. A failing expression gives none. -/
def returned (expr : Option (Except SyntaxError Expr)) : Eval (Option Value) := do
  match expr with
  | none => return none
  | some expr =>
    match ← Eval.attempt (do Eval.evalValue (← parsed expr)) with
    | .ok value => return some value
    | .error fault => do
      recover fault
      return none

def runReturn (base : Nat) (inFunction skipping : Bool)
    (expr : Option (Except SyntaxError Expr)) : Eval Flow := do
  if skipping then finishStatement base .nothing
  else if !inFunction then
    recover (.eval .returnOutsideFunction)
    finishStatement base .error
  else return .giveBack (← returned expr)

/-- Reports what is wrong with an item, unless it is skipped. -/
def reject (skipping : Bool) (error : SyntaxError) : Eval Unit := do
  if !skipping then recover (.parse error)

def runDeclaration (base : Nat) (skipping : Bool) (header : Header)
    (body : Except SyntaxError (List Text.SourceLine)) : Eval Flow := do
  match body with
  | .error e => do
    reject skipping e
    finishStatement base .error
  | .ok body => do
    let flow ←
      if skipping then pure .nothing
      else guarded do
        declareHeader header body
        return .nothing
    finishStatement base flow

def runItem (base : Nat) (inFunction : Bool) (item : Item) : Eval Flow := do
  let skipping ← beginItem item
  match item with
  | .condition expr => do
    enterIf skipping (conditionHolds expr)
    return .nothing
  | .elseMark => enterElse skipping
  | .blockOpen => do
    openBlock
    return .nothing
  | .blockClose => closeBlock base
  | .giveBack expr => runReturn base inFunction skipping expr
  | .expression expr => do
    let flow ← if skipping then pure .nothing else guarded (expressionFlow expr)
    finishStatement base flow
  | .declaration header body => runDeclaration base skipping header body
  | .rejected error => do
    reject skipping error
    finishStatement base .error
  | .malformed error => do
    reject skipping error
    return .error

/-- Runs items in order; a `return` that is executed ends them. `flow` is that of the item before. -/
def runItems (base : Nat) (inFunction : Bool) (flow : Flow) : List Item → Eval Flow
  | [] => return flow
  | item :: rest => do
    match ← runItem base inFunction item with
    | .giveBack value => return .giveBack value
    | flow => runItems base inFunction flow rest

/-- Runs the items of a logical line. A line during which an error was reported failed, unless it
returned. -/
def runLine (base : Nat) (inFunction : Bool) (items : List Item) : Eval Flow := do
  let before := (← machine).errorCount
  match ← runItems base inFunction .nothing items with
  | .giveBack value => return .giveBack value
  | flow => return if (← machine).errorCount > before then .error else flow

/-- Runs the lines of a script; an executed `return` ends them. -/
def runScript (base : Nat) (inFunction : Bool) (flow : Flow) : Script → Eval Flow
  | [] => return flow
  | line :: rest => do
    update fun m => { m with line := line.number }
    match line.items with
    | .error e => do
      Eval.report (.parse e)
      runScript base inFunction .error rest
    | .ok items =>
      match ← runLine base inFunction items with
      | .giveBack value => return .giveBack value
      | flow => runScript base inFunction flow rest

/-- Runs a file or a body. What it leaves open is reported, unless a `return` or a fault ended it,
and dropped. -/
def runLines (lines : List Text.SourceLine) (inFunction : Bool) : Eval Flow := do
  let base := (← scopes).depth
  let result ← Eval.attempt (runScript base inFunction .nothing (.ofLines lines))
  match result with
  | .ok (.giveBack _) | .error _ => pure ()
  | .ok _ => if (← scopes).hasOpenBlock base then Eval.report (.eval .unterminatedBlock)
  updateScopes (·.truncate base)
  match result with
  | .ok flow => return flow
  | .error fault => Eval.fail fault

end BuildScript.Run
