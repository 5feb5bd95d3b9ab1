import BuildScript.Scope

/-!
Scopes over storage: names with the values they stand for.
-/

namespace BuildScript

structure Environment where
  scopes : ScopeStack
  memory : Memory

namespace Environment

def empty : Environment := ⟨.empty, .empty⟩

def load (env : Environment) (slot : Slot) : Value := env.memory.load slot

/-- Binds a name to a fresh slot in the innermost scope, where the name must be new. -/
def define (env : Environment) (name : String) (value : Value) :
    Except EvalError (Slot × Environment) :=
  match env.scopes.lookupCurrent name with
  | some _ => .error (.redefined name)
  | none =>
    let (slot, memory) := env.memory.alloc value
    .ok (slot, ⟨env.scopes.addBinding name slot, memory⟩)

/-- Binds a name to a slot that exists. -/
def bind (env : Environment) (name : String) (slot : Slot) : Except EvalError Environment :=
  (env.scopes.bind name slot).map fun scopes => { env with scopes }

/-- Binds a name to a fresh slot in the global scope, where the name must be new. -/
def defineGlobal (env : Environment) (name : String) (value : Value) :
    Except EvalError Environment :=
  match lookupName name env.scopes.global with
  | some _ => .error (.redefined name)
  | none =>
    let (slot, memory) := env.memory.alloc value
    .ok ⟨{ env.scopes with global := (name, slot) :: env.scopes.global }, memory⟩

/-- Stores a value through a slot. -/
def write (env : Environment) (slot : Slot) (value : Value) : Environment :=
  { env with memory := env.memory.write slot value }

/-- Replaces the value of a name bound in the innermost scope. -/
def set (env : Environment) (name : String) (value : Value) : Except EvalError Environment :=
  match env.scopes.lookupCurrent name with
  | some slot => .ok (env.write slot value)
  | none => .error (.notDefined name)

def global? (env : Environment) (name : String) : Option Value :=
  (lookupName name env.scopes.global).map env.load

/-- The global names in ascending order, with their values. -/
def globals (env : Environment) : List (String × Value) :=
  env.scopes.globalNames.filterMap fun name => (env.global? name).map (name, ·)

end Environment

end BuildScript
