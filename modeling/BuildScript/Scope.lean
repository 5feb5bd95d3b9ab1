import BuildScript.EvalError
import BuildScript.Memory

/-!
Scopes. The global scope is always there and is always plain; the others lie above it, innermost
first. A name is looked up from the innermost scope outward, and at an isolated scope the search
goes on in the global one, so a body sees its own names and the global ones but not its caller's.
-/

namespace BuildScript

/-- How a scope takes part in the choice between an `if` and its `else`. -/
inductive BlockState where
  | plain
  | ifBody
  | skippedIf
  | skippedElse
  | elseBody
  deriving DecidableEq

def BlockState.isSkipped : BlockState → Bool
  | skippedIf | skippedElse => true
  | _ => false

abbrev Bindings := List (String × Slot)

structure Scope where
  /-- The scope of a call: a search that misses here goes on in the global scope. -/
  isolated : Bool
  state : BlockState
  /-- A body without braces, closed after one statement. -/
  singleLine : Bool
  /-- Nothing ran in the body yet, so a brace still opens it. -/
  awaitingBody : Bool
  /-- The scope or one below it is skipped. -/
  skipping : Bool
  bindings : Bindings

namespace Scope

def block : Scope := ⟨false, .plain, false, false, false, []⟩

def call : Scope := { block with isolated := true }

/-- The body of an `if` or `else`, so far a single statement. -/
def conditional (state : BlockState) : Scope :=
  { block with state, singleLine := true, awaitingBody := true, skipping := state.isSkipped }

end Scope

structure ScopeStack where
  /-- The scopes above the global one, innermost first. -/
  inner : List Scope
  global : Bindings

namespace ScopeStack

def empty : ScopeStack := ⟨[], []⟩

/-- The number of scopes, the global one included. -/
def depth (stack : ScopeStack) : Nat := stack.inner.length + 1

def current (stack : ScopeStack) : Scope :=
  match stack.inner with
  | scope :: _ => scope
  | [] => { Scope.block with bindings := stack.global }

/-- A scope above a skipped one is skipped too. -/
def push (stack : ScopeStack) (scope : Scope) : ScopeStack :=
  { stack with
    inner := { scope with skipping := scope.skipping || stack.current.skipping } :: stack.inner }

/-- Takes the innermost scope off, unless it is the global one. -/
def pop (stack : ScopeStack) : Option Scope × ScopeStack :=
  match stack.inner with
  | scope :: rest => (some scope, { stack with inner := rest })
  | [] => (none, stack)

/-- Keeps the outermost scopes only, and the global one in any case. -/
def truncate (stack : ScopeStack) (depth : Nat) : ScopeStack :=
  { stack with inner := stack.inner.drop (stack.depth - max depth 1) }

/-- Whether a braced block above the first `base` scopes is open. The global scope counts as one. -/
def hasOpenBlock (stack : ScopeStack) (base : Nat) : Bool :=
  base == 0 || (stack.inner.take (stack.depth - base)).any fun scope => !scope.singleLine

/-- Changes the innermost scope. The global one has nothing to change but its bindings. -/
def mapCurrent (stack : ScopeStack) (f : Scope → Scope) : ScopeStack :=
  match stack.inner with
  | scope :: rest => { stack with inner := f scope :: rest }
  | [] => stack

def lookupFrom (global : Bindings) (name : String) : List Scope → Option Slot
  | [] => lookupName name global
  | scope :: rest =>
    match lookupName name scope.bindings with
    | some slot => some slot
    | none => if scope.isolated then lookupName name global else lookupFrom global name rest

/-- The slot a name stands for. -/
def lookup (stack : ScopeStack) (name : String) : Option Slot :=
  lookupFrom stack.global name stack.inner

/-- The slot a name is bound to in the innermost scope. -/
def lookupCurrent (stack : ScopeStack) (name : String) : Option Slot :=
  lookupName name stack.current.bindings

/-- Adds a binding to the innermost scope. -/
def addBinding (stack : ScopeStack) (name : String) (slot : Slot) : ScopeStack :=
  match stack.inner with
  | scope :: rest =>
    { stack with inner := { scope with bindings := (name, slot) :: scope.bindings } :: rest }
  | [] => { stack with global := (name, slot) :: stack.global }

/-- Binds a name in the innermost scope, where it must be new. -/
def bind (stack : ScopeStack) (name : String) (slot : Slot) : Except EvalError ScopeStack :=
  match stack.lookupCurrent name with
  | some _ => .error (.redefined name)
  | none => .ok (stack.addBinding name slot)

/-- Binds a name in the global scope, where it must be new. -/
def bindGlobal (stack : ScopeStack) (name : String) (slot : Slot) : Except EvalError ScopeStack :=
  match lookupName name stack.global with
  | some _ => .error (.redefined name)
  | none => .ok { stack with global := (name, slot) :: stack.global }

/-- Every slot some scope binds. -/
def slots (stack : ScopeStack) : List Slot :=
  (stack.inner.flatMap (·.bindings) ++ stack.global).map (·.2)

/-- The global names in ascending order. -/
def globalNames (stack : ScopeStack) : List String :=
  (stack.global.map (·.1)).mergeSort fun a b => a ≤ b

end ScopeStack

end BuildScript
