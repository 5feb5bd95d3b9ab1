import BuildScript.Machine
import BuildScript.Text.SourceLine
import BuildScript.Value.Text

/-!
Evaluation: a machine goes in, a machine comes out, and there is a result or a fault. The context
says how a nested body is run and how the embedding program is called, and which slots and objects
are in use by the evaluation although no scope may hold them any more.
-/

namespace BuildScript

/-- The result of an expression: a slot that can be assigned, or a value without storage. -/
inductive Operand where
  | reference (slot : Slot)
  | temporary (value : Value) (isLiteral : Bool)

namespace Operand

def ofValue (value : Value) : Operand := temporary value false

/-- The result of a call that returned nothing. -/
def nothing : Operand := ofValue .nothing

end Operand

/-- What executing a statement or a line led to. -/
inductive Flow where
  | value (value : Value)
  | nothing
  /-- An `if` ran its body; an `else` after it is skipped. -/
  | trueIf
  /-- An `if` skipped its body; an `else` after it runs. -/
  | falseIf
  | elseMark
  | giveBack (value : Option Value)
  | error

/-- Something an evaluation holds on to. -/
inductive Anchor where
  | slot (slot : Slot)
  | object (id : ObjectId)
  deriving DecidableEq

def Operand.anchors : Operand → List Anchor
  | reference slot => [.slot slot]
  | temporary _ _ => []

structure Context where
  /-- Runs the lines of a body or a file. -/
  runBody : List Anchor → List Text.SourceLine → Bool → Machine → Except Fault Flow × Machine
  /-- Calls an entry point of the embedding program. -/
  callHost : List Anchor → String → List Operand → Machine → Except Fault Value × Machine
  held : List Anchor

def Eval (α : Type) : Type := Context → Machine → Except Fault α × Machine

namespace Eval

instance : Monad Eval where
  pure a := fun _ m => (.ok a, m)
  bind x f := fun ctx m =>
    match x ctx m with
    | (.ok a, m) => f a ctx m
    | (.error e, m) => (.error e, m)

def fail {α : Type} (fault : Fault) : Eval α := fun _ m => (.error fault, m)

def raise {α : Type} (error : EvalError) : Eval α := fail (.eval error)

def ofExcept {α : Type} (result : Except EvalError α) : Eval α :=
  fun _ m => (result.mapError .eval, m)

instance : MonadLift (Except EvalError) Eval := ⟨ofExcept⟩

def machine : Eval Machine := fun _ m => (.ok m, m)

def update (f : Machine → Machine) : Eval Unit := fun _ m => (.ok (), f m)

/-- Runs an evaluation and gives its fault as a result. -/
def attempt {α : Type} (x : Eval α) : Eval (Except Fault α) := fun ctx m =>
  let (result, m) := x ctx m
  (.ok result, m)

/-- Runs an evaluation while more is held. -/
def holding {α : Type} (anchors : List Anchor) (x : Eval α) : Eval α := fun ctx m =>
  x { ctx with held := anchors ++ ctx.held } m

def held : Eval (List Anchor) := fun ctx m => (.ok ctx.held, m)

def runBody (lines : List Text.SourceLine) (inFunction : Bool) : Eval Flow := fun ctx m =>
  ctx.runBody ctx.held lines inFunction m

def callHost (entry : String) (args : List Operand) : Eval Value := fun ctx m =>
  ctx.callHost ctx.held entry args m

/-- Gives out the next identities. -/
def giveIds (count : Nat) : Eval Unit := update fun m => { m with nextId := m.nextId + count }

def report (fault : Fault) : Eval Unit := update (·.report fault)

/-- Ends a failed statement: its fault is reported, unless it has to unwind the calls first. -/
def recover (fault : Fault) : Eval Unit := do
  let m ← machine
  if m.callDepth > 0 && fault.isFatal then fail fault else report fault

end Eval

end BuildScript
