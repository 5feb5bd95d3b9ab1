import BuildScript.Proofs.Scopes.Levels
import BuildScript.Proofs.Storage.Writing

/-!
What holds of scopes whatever is done to them, from the global scope alone on. What a scope was opened
as is kept apart from the scopes: of it follow the depth, which scopes are skipped and how far a name
is searched. What is done above some depth leaves the scopes up to it as they are, except for new
global names.
-/

namespace BuildScript

/-- What a scope is opened as. -/
inductive Opening where
  | plain
  | isolated
  | conditional (state : BlockState)

namespace Opening

def scope : Opening → Scope
  | plain => .block
  | isolated => .call
  | conditional state => .conditional state

def isIsolated : Opening → Bool
  | isolated => true
  | plain | conditional _ => false

def isSkipped : Opening → Bool
  | conditional state => state.isSkipped
  | plain | isolated => false

/-- The scopes that were opened and are open still, innermost first, before they bind anything. One is
skipping if it or one below it was opened as skipped. -/
def scopes : List Opening → List Scope
  | [] => []
  | opening :: below =>
    { opening.scope with skipping := (opening :: below).any isSkipped } :: scopes below

end Opening

/-- What can be done to scopes. -/
inductive ScopeOp where
  | push (opening : Opening)
  | pop
  | truncate (depth : Nat)
  | define (name : String) (value : Value)
  | bind (name : String) (slot : Slot)
  | set (name : String) (value : Value)
  | defineGlobal (name : String) (value : Value)
  | lookup (name : String)

namespace ScopeOp

def apply (env : Environment) : ScopeOp → Except EvalError Environment
  | push opening => .ok { env with scopes := env.scopes.push opening.scope }
  | pop => .ok { env with scopes := env.scopes.pop.2 }
  | truncate depth => .ok { env with scopes := env.scopes.truncate depth }
  | define name value => (env.define name value).map (·.2)
  | bind name slot => env.bind name slot
  | set name value => env.set name value
  | defineGlobal name value => env.defineGlobal name value
  | lookup _ => .ok env

/-- The environment that an operation leaves, which is the one it found if it fails. -/
def after (op : ScopeOp) (env : Environment) : Environment := (op.apply env).toOption.getD env

/-- What is open after an operation, by what was open before. -/
def openings (standing : List Opening) : ScopeOp → List Opening
  | push opening => opening :: standing
  | pop => standing.drop 1
  | truncate depth => standing.drop (standing.length + 1 - max depth 1)
  | define _ _ | bind _ _ | set _ _ | defineGlobal _ _ | lookup _ => standing

def runFrom (env : Environment) (ops : List ScopeOp) : Environment :=
  ops.foldl (fun env op => op.after env) env

/-- What is done to the global scope alone. -/
def run (ops : List ScopeOp) : Environment := runFrom .empty ops

/-- What is open after what is done to the global scope alone. -/
def opened (ops : List ScopeOp) : List Opening :=
  ops.foldl (fun standing op => op.openings standing) []

/-- Whether the operation is one on the names of the innermost scope. -/
def isLocal : ScopeOp → Bool
  | define _ _ | bind _ _ | set _ _ => true
  | push _ | pop | truncate _ | defineGlobal _ _ | lookup _ => false

/-- Why an operation fails. -/
inductive Refused (env : Environment) : ScopeOp → EvalError → Prop
  | define (name : String) (value : Value) (h : env.scopes.lookupCurrent name ≠ none) :
      Refused env (.define name value) (.redefined name)
  | bind (name : String) (slot : Slot) (h : env.scopes.lookupCurrent name ≠ none) :
      Refused env (.bind name slot) (.redefined name)
  | set (name : String) (value : Value) (h : env.scopes.lookupCurrent name = none) :
      Refused env (.set name value) (.notDefined name)
  | defineGlobal (name : String) (value : Value) (h : lookupName name env.scopes.global ≠ none) :
      Refused env (.defineGlobal name value) (.redefined name)

/-- Everything is done above a depth, except that a scope may be opened right at it. -/
def StaysAbove (depth : Nat) (env : Environment) : List ScopeOp → Prop
  | [] => depth ≤ env.scopes.depth
  | op :: ops =>
    (depth < env.scopes.depth ∨ depth = env.scopes.depth ∧ ∃ opening, op = .push opening) ∧
      StaysAbove depth (op.after env) ops

end ScopeOp

/-- The scope without its names. -/
def Scope.bare (scope : Scope) : Scope := { scope with bindings := [] }

/-- All scopes, innermost first. -/
def ScopeStack.all (stack : ScopeStack) : List Scope :=
  stack.inner ++ [{ Scope.block with bindings := stack.global }]

/-- More names, none of which hides one that was there. -/
def Bindings.Grow (before after : Bindings) : Prop :=
  ∃ added, after = added ++ before ∧
    ∀ name slot, lookupName name before = some slot → lookupName name after = some slot

open ScopeOp (runFrom opened StaysAbove Refused)

/-- What holds of an environment after operations on the global scope alone, and of what is done to it
next. -/
structure ScopeLaws (ops : List ScopeOp) (env : Environment) : Prop where
  depth : env.scopes.depth = (opened ops).length + 1
  scopes : env.scopes.all.map Scope.bare = Opening.scopes (opened ops) ++ [.block]
  /-- A scope binds a name once. -/
  distinct : ∀ scope ∈ env.scopes.all, (scope.bindings.map (·.1)).Nodup
  /-- A name is searched in the scopes up to the first isolated one, and then in the global scope. -/
  lookup : ∀ name, env.scopes.lookup name =
    ((env.scopes.inner.take ((opened ops).findIdx Opening.isIsolated + 1)).findSome? fun scope =>
      lookupName name scope.bindings).or (lookupName name env.scopes.global)
  /-- The global scope keeps the names it has. -/
  bottom : ∀ more, env.scopes.global.Grow (runFrom env more).scopes.global
  /-- An operation on the innermost scope changes nothing but the names there. -/
  innermost : ∀ op : ScopeOp, op.isLocal = true → ∃ bindings,
    (op.after env).scopes.all = { env.scopes.current with bindings } :: env.scopes.all.tail
  /-- What is stored changes only where the innermost scope has a name set. -/
  stored : ∀ (op : ScopeOp) (slot : Slot), slot.index < env.memory.cells.size →
    (op.after env).memory.content slot = env.memory.content slot ∨
      ∃ name value, op = .set name value ∧ env.scopes.lookupCurrent name = some slot
  /-- What is done above a depth leaves what is found up to that depth, except for global names. -/
  below : ∀ depth more, 0 < depth → StaysAbove depth env more → ∀ name,
    ((runFrom env more).scopes.truncate depth).lookup name =
        (env.scopes.truncate depth).lookup name ∨
      (env.scopes.truncate depth).lookup name = none ∧
        ∃ value, ScopeOp.defineGlobal name value ∈ more
  /-- The same on the way back to a depth. -/
  returns : ∀ more, StaysAbove env.scopes.depth env more →
    (runFrom env more).scopes.depth = env.scopes.depth → ∀ name,
      (runFrom env more).scopes.lookup name = env.scopes.lookup name ∨
        env.scopes.lookup name = none ∧ ∃ value, ScopeOp.defineGlobal name value ∈ more
  fails : ∀ (op : ScopeOp) e, op.apply env = .error e ↔ Refused env op e
  unchanged : ∀ (op : ScopeOp) e, op.apply env = .error e → op.after env = env

theorem lookupName_append {α : Type} (name : String) (added entries : List (String × α)) :
    lookupName name (added ++ entries) = (lookupName name added).or (lookupName name entries) := by
  unfold lookupName
  rw [List.find?_append, Option.map_or]

theorem lookupName_eq_none {α : Type} {name : String} {entries : List (String × α)} :
    lookupName name entries = none ↔ name ∉ entries.map (·.1) := by
  simp only [lookupName, Option.map_eq_none_iff, List.find?_eq_none, List.mem_map, not_exists,
    not_and]
  simp

namespace Bindings.Grow

variable {a b c : Bindings}

theorem refl (a : Bindings) : a.Grow a := ⟨[], rfl, fun _ _ h => h⟩

theorem trans (h : a.Grow b) (h' : b.Grow c) : a.Grow c := by
  obtain ⟨first, rfl, hfirst⟩ := h
  obtain ⟨second, rfl, hsecond⟩ := h'
  exact ⟨second ++ first, by simp, fun name slot h => hsecond name slot (hfirst name slot h)⟩

theorem cons {name : String} (h : lookupName name a = none) (slot : Slot) :
    a.Grow ((name, slot) :: a) := by
  refine ⟨[(name, slot)], rfl, fun other found hfound => ?_⟩
  rw [lookupName_cons, if_neg, hfound]
  rintro rfl
  simp [h] at hfound

end Bindings.Grow

namespace ScopeOp

variable {env : Environment} {op : ScopeOp} {e : EvalError}

theorem after_of_ok {env' : Environment} (h : op.apply env = .ok env') : op.after env = env' := by
  simp [after, h, Except.toOption]

theorem after_of_error (h : op.apply env = .error e) : op.after env = env := by
  simp [after, h, Except.toOption]

theorem Refused.openings_eq (h : Refused env op e) (standing : List Opening) :
    op.openings standing = standing := by
  cases h <;> rfl

theorem Refused.apply_eq (h : Refused env op e) : op.apply env = .error e := by
  cases h with
  | define name value hbound =>
    obtain ⟨slot, hslot⟩ := Option.ne_none_iff_exists'.mp hbound
    simp [apply, Environment.define, hslot, Except.map]
  | bind name slot hbound =>
    obtain ⟨slot, hslot⟩ := Option.ne_none_iff_exists'.mp hbound
    simp [apply, Environment.bind, ScopeStack.bind, hslot, Except.map]
  | set name value hnone => simp [apply, Environment.set, hnone]
  | defineGlobal name value hbound =>
    obtain ⟨slot, hslot⟩ := Option.ne_none_iff_exists'.mp hbound
    simp [apply, Environment.defineGlobal, hslot]

/-- What an operation does. -/
inductive Outcome (env : Environment) (op : ScopeOp) : Prop
  | pushed (opening : Opening) (hop : op = .push opening)
      (happly : op.apply env = .ok { env with scopes := env.scopes.push opening.scope })
  | dropped (count : Nat) (hlocal : op.isLocal = false)
      (hopenings : ∀ standing : List Opening, standing.length = env.scopes.inner.length →
        op.openings standing = standing.drop count)
      (happly : op.apply env =
        .ok { env with scopes := ⟨env.scopes.inner.drop count, env.scopes.global⟩ })
  | added (name : String) (slot : Slot) (memory : Memory)
      (hopenings : ∀ standing, op.openings standing = standing)
      (hnew : env.scopes.lookupCurrent name = none) (hmemory : env.memory.Grows memory)
      (happly : op.apply env = .ok ⟨env.scopes.addBinding name slot, memory⟩)
  | addedGlobal (name : String) (value : Value) (slot : Slot) (memory : Memory)
      (hop : op = .defineGlobal name value) (hnew : lookupName name env.scopes.global = none)
      (hmemory : env.memory.Grows memory)
      (happly : op.apply env =
        .ok ⟨⟨env.scopes.inner, (name, slot) :: env.scopes.global⟩, memory⟩)
  | written (name : String) (value : Value) (slot : Slot) (hop : op = .set name value)
      (hslot : env.scopes.lookupCurrent name = some slot)
      (happly : op.apply env = .ok (env.write slot value))
  | nothing (hop : ∃ name, op = .lookup name) (happly : op.apply env = .ok env)
  | refused (e : EvalError) (h : Refused env op e)

theorem outcome (env : Environment) (op : ScopeOp) : Outcome env op := by
  cases op with
  | push opening => exact .pushed opening rfl rfl
  | pop =>
    apply Outcome.dropped 1 rfl fun _ _ => rfl
    obtain ⟨⟨inner, global⟩, memory⟩ := env
    cases inner <;> rfl
  | truncate depth =>
    refine .dropped _ rfl (fun standing h => ?_) rfl
    simp [openings, ScopeStack.depth, h]
  | define name value =>
    cases hslot : env.scopes.lookupCurrent name with
    | none =>
      apply Outcome.added name (env.memory.alloc value).1 (env.memory.alloc value).2
        (fun _ => rfl) hslot
      · exact (Memory.place_planted env.memory value).push.toGrows
      · simp [apply, Environment.define, hslot, Except.map]
    | some slot => exact .refused _ (.define name value (by simp [hslot]))
  | bind name slot =>
    cases hbound : env.scopes.lookupCurrent name with
    | none =>
      apply Outcome.added name slot env.memory (fun _ => rfl) hbound (.refl _)
      simp [apply, Environment.bind, ScopeStack.bind, hbound, Except.map]
    | some bound => exact .refused _ (.bind name slot (by simp [hbound]))
  | set name value =>
    cases hslot : env.scopes.lookupCurrent name with
    | none => exact .refused _ (.set name value hslot)
    | some slot =>
      apply Outcome.written name value slot rfl hslot
      simp [apply, Environment.set, hslot]
  | defineGlobal name value =>
    cases hslot : lookupName name env.scopes.global with
    | none =>
      apply Outcome.addedGlobal name value (env.memory.alloc value).1 (env.memory.alloc value).2
        rfl hslot
      · exact (Memory.place_planted env.memory value).push.toGrows
      · simp [apply, Environment.defineGlobal, hslot]
    | some slot => exact .refused _ (.defineGlobal name value (by simp [hslot]))
  | lookup name => exact .nothing ⟨name, rfl⟩ rfl

theorem apply_eq_error : op.apply env = .error e ↔ Refused env op e := by
  constructor
  · intro h
    cases outcome env op with
    | pushed _ _ happly | dropped _ _ _ happly | added _ _ _ _ _ _ happly
      | addedGlobal _ _ _ _ _ _ _ happly | written _ _ _ _ _ happly | nothing _ happly =>
      simp [happly] at h
    | refused e' hrefused =>
      rw [hrefused.apply_eq, Except.error.injEq] at h
      rwa [← h]
  · exact Refused.apply_eq

end ScopeOp

namespace Opening

theorem scopes_length (standing : List Opening) : (scopes standing).length = standing.length := by
  induction standing with
  | nil => rfl
  | cons opening below ih => simp [scopes, ih]

theorem scopes_drop (standing : List Opening) (count : Nat) :
    scopes (standing.drop count) = (scopes standing).drop count := by
  induction standing generalizing count with
  | nil => simp [scopes]
  | cons opening below ih =>
    cases count with
    | zero => rfl
    | succ count => simpa [scopes] using ih count

theorem scope_skipping (opening : Opening) : opening.scope.skipping = opening.isSkipped := by
  cases opening <;> rfl

theorem map_isolated (standing : List Opening) :
    (scopes standing).map Scope.isolated = standing.map isIsolated := by
  induction standing with
  | nil => rfl
  | cons opening below ih => cases opening <;> simp [scopes, ih] <;> rfl

end Opening

namespace ScopeStack

variable {stack : ScopeStack} {standing : List Opening}

/-- Whether the innermost scope is skipping says whether any scope was opened as skipped. -/
theorem current_skipping (h : stack.inner.map Scope.bare = Opening.scopes standing) :
    stack.current.skipping = standing.any Opening.isSkipped := by
  obtain ⟨inner, global⟩ := stack
  cases inner with
  | nil =>
    cases standing with
    | nil => rfl
    | cons opening below => simp [Opening.scopes] at h
  | cons scope rest =>
    cases standing with
    | nil => simp [Opening.scopes] at h
    | cons opening below =>
      simp only [List.map_cons, Opening.scopes, List.cons.injEq] at h
      exact congrArg Scope.skipping h.1

theorem bare_push (h : stack.inner.map Scope.bare = Opening.scopes standing) (opening : Opening) :
    (stack.push opening.scope).inner.map Scope.bare = Opening.scopes (opening :: standing) := by
  have hbare : opening.scope.bindings = [] := by cases opening <;> rfl
  simp [push, h, Opening.scopes, Scope.bare, current_skipping h, opening.scope_skipping, hbare]

theorem bare_addBinding (stack : ScopeStack) (name : String) (slot : Slot) :
    (stack.addBinding name slot).inner.map Scope.bare = stack.inner.map Scope.bare := by
  obtain ⟨inner, global⟩ := stack
  cases inner <;> rfl

theorem all_eq (stack : ScopeStack) : stack.all = stack.current :: stack.all.tail := by
  obtain ⟨inner, global⟩ := stack
  cases inner <;> rfl

theorem all_addBinding (stack : ScopeStack) (name : String) (slot : Slot) :
    (stack.addBinding name slot).all =
      { stack.current with bindings := (name, slot) :: stack.current.bindings } ::
        stack.all.tail := by
  obtain ⟨inner, global⟩ := stack
  cases inner <;> rfl

theorem global_addBinding (stack : ScopeStack) {name : String} (slot : Slot)
    (h : stack.lookupCurrent name = none) :
    stack.global.Grow (stack.addBinding name slot).global := by
  obtain ⟨inner, global⟩ := stack
  cases inner with
  | nil => exact .cons h slot
  | cons scope rest => exact .refl global

theorem lookupFrom_eq (global : Bindings) (name : String) (scopes : List Scope) :
    lookupFrom global name scopes =
      ((scopes.take (scopes.findIdx Scope.isolated + 1)).findSome? fun scope =>
        lookupName name scope.bindings).or (lookupName name global) := by
  induction scopes with
  | nil => rfl
  | cons scope rest ih =>
    rw [lookupFrom, List.findIdx_cons]
    cases hfound : lookupName name scope.bindings with
    | some slot => simp [hfound]
    | none =>
      cases hisolated : scope.isolated with
      | true => simp [hfound]
      | false => simp [hfound, ih]

theorem findIdx_isolated (h : stack.inner.map Scope.bare = Opening.scopes standing) :
    stack.inner.findIdx Scope.isolated = standing.findIdx Opening.isIsolated := by
  have hflags : stack.inner.map Scope.isolated = standing.map Opening.isIsolated := by
    rw [← Opening.map_isolated, ← h, List.map_map]
    rfl
  have hfirst := congrArg (List.findIdx id) hflags
  rwa [List.findIdx_map, List.findIdx_map] at hfirst

/-- The scopes up to a depth are still there when others are closed. -/
theorem truncate_drop {depth : Nat} (inner : List Scope) (global : Bindings) (count : Nat)
    (h : depth ≤ (inner.drop count).length + 1) :
    truncate ⟨inner.drop count, global⟩ depth = truncate ⟨inner, global⟩ depth := by
  simp only [truncate, ScopeStack.depth, List.drop_drop, List.length_drop, mk.injEq,
    and_true] at h ⊢
  by_cases hcount : count ≤ inner.length
  · congr 1
    omega
  · rw [List.drop_eq_nil_of_le (by omega), List.drop_eq_nil_of_le (by omega)]

theorem truncate_cons {depth : Nat} (scope : Scope) (rest : List Scope) (global : Bindings)
    (h : depth ≤ rest.length + 1) :
    truncate ⟨scope :: rest, global⟩ depth = truncate ⟨rest, global⟩ depth :=
  (truncate_drop (scope :: rest) global 1 h).symm

theorem truncate_addBinding {depth : Nat} (stack : ScopeStack) (name : String) (slot : Slot)
    (hpos : 0 < depth) (h : depth < stack.depth) :
    (stack.addBinding name slot).truncate depth = stack.truncate depth := by
  obtain ⟨inner, global⟩ := stack
  cases inner with
  | nil =>
    simp only [ScopeStack.depth, List.length_nil] at h
    omega
  | cons scope rest =>
    have hrest : depth ≤ rest.length + 1 := by
      simp only [ScopeStack.depth, List.length_cons] at h
      omega
    simp only [addBinding, truncate_cons _ _ _ hrest]

theorem truncate_global (stack : ScopeStack) (depth : Nat) :
    (stack.truncate depth).global = stack.global := rfl

theorem truncate_self {depth : Nat} (h : stack.depth ≤ depth) : stack.truncate depth = stack := by
  obtain ⟨inner, global⟩ := stack
  simp only [ScopeStack.depth] at h
  have hnone : inner.length + 1 - max depth 1 = 0 := by omega
  simp [truncate, ScopeStack.depth, hnone]

end ScopeStack

namespace ScopeOp

variable {env : Environment} {op : ScopeOp} {ops more : List ScopeOp} {standing : List Opening}
  {before middle later : ScopeStack} {depth : Nat}

/-- The scopes above the global one are what was opened, and every scope binds a name once. -/
structure Sound (standing : List Opening) (env : Environment) : Prop where
  scopes : env.scopes.inner.map Scope.bare = Opening.scopes standing
  distinct : ∀ scope ∈ env.scopes.all, (scope.bindings.map (·.1)).Nodup

/-- An operation keeps the scopes sound. -/
theorem Sound.after (h : Sound standing env) (op : ScopeOp) :
    Sound (op.openings standing) (op.after env) := by
  obtain ⟨hscopes, hdistinct⟩ := h
  have hlength : standing.length = env.scopes.inner.length := by
    rw [← Opening.scopes_length, ← hscopes, List.length_map]
  cases outcome env op with
  | pushed opening hop happly =>
    rw [after_of_ok happly, hop]
    refine ⟨ScopeStack.bare_push hscopes opening, ?_⟩
    have hempty : opening.scope.bindings = [] := by cases opening <;> rfl
    simpa [ScopeStack.push, ScopeStack.all, hempty] using hdistinct
  | dropped count _ hopenings happly =>
    rw [after_of_ok happly, hopenings standing hlength]
    constructor
    · rw [Opening.scopes_drop, ← hscopes, List.map_drop]
    · intro scope hscope
      apply hdistinct scope
      simp only [ScopeStack.all, List.mem_append] at hscope ⊢
      exact hscope.imp List.mem_of_mem_drop id
  | added name slot memory hopenings hnew _ happly =>
    rw [after_of_ok happly, hopenings]
    constructor
    · rwa [ScopeStack.bare_addBinding]
    · rw [ScopeStack.all_eq, List.forall_mem_cons] at hdistinct
      rw [ScopeStack.all_addBinding, List.forall_mem_cons]
      exact ⟨List.nodup_cons.mpr ⟨lookupName_eq_none.mp hnew, hdistinct.1⟩, hdistinct.2⟩
  | addedGlobal name value slot memory hop hnew _ happly =>
    rw [after_of_ok happly, hop]
    refine ⟨hscopes, ?_⟩
    simp only [ScopeStack.all, List.forall_mem_append, List.forall_mem_singleton] at hdistinct ⊢
    exact ⟨hdistinct.1, List.nodup_cons.mpr ⟨lookupName_eq_none.mp hnew, hdistinct.2⟩⟩
  | written name value slot hop _ happly =>
    rw [after_of_ok happly, hop]
    exact ⟨hscopes, hdistinct⟩
  | nothing hop happly =>
    obtain ⟨name, rfl⟩ := hop
    rw [after_of_ok happly]
    exact ⟨hscopes, hdistinct⟩
  | refused e hrefused =>
    rw [after_of_error hrefused.apply_eq, hrefused.openings_eq]
    exact ⟨hscopes, hdistinct⟩

theorem run_sound (ops : List ScopeOp) : Sound (opened ops) (run ops) := by
  have hsteps (ops : List ScopeOp) : ∀ {standing : List Opening} {env : Environment},
      Sound standing env →
        Sound (ops.foldl (fun standing op => op.openings standing) standing) (runFrom env ops) := by
    induction ops with
    | nil => exact fun h => h
    | cons op ops ih => exact fun h => ih (h.after op)
  apply hsteps
  exact ⟨rfl, by simp [Environment.empty, ScopeStack.empty, ScopeStack.all, Scope.block]⟩

theorem grow_after (env : Environment) (op : ScopeOp) :
    env.scopes.global.Grow (op.after env).scopes.global := by
  cases outcome env op with
  | pushed _ _ happly | dropped _ _ _ happly | written _ _ _ _ _ happly | nothing _ happly =>
    rw [after_of_ok happly]
    exact .refl _
  | added name slot memory _ hnew _ happly =>
    rw [after_of_ok happly]
    exact env.scopes.global_addBinding slot hnew
  | addedGlobal name value slot memory _ hnew _ happly =>
    rw [after_of_ok happly]
    exact .cons hnew slot
  | refused e hrefused =>
    rw [after_of_error hrefused.apply_eq]
    exact .refl _

theorem grow_runFrom (env : Environment) (more : List ScopeOp) :
    env.scopes.global.Grow (runFrom env more).scopes.global := by
  induction more generalizing env with
  | nil => exact .refl _
  | cons op more ih => exact (grow_after env op).trans (ih _)

theorem innermost_after (env : Environment) (hlocal : op.isLocal = true) :
    ∃ bindings, (op.after env).scopes.all =
      { env.scopes.current with bindings } :: env.scopes.all.tail := by
  cases outcome env op with
  | pushed _ hop _ | addedGlobal _ _ _ _ hop _ _ _ => simp [hop, isLocal] at hlocal
  | dropped _ hnot _ _ => simp [hnot] at hlocal
  | nothing hop _ =>
    obtain ⟨name, rfl⟩ := hop
    simp [isLocal] at hlocal
  | added name slot memory _ _ _ happly =>
    rw [after_of_ok happly]
    exact ⟨_, env.scopes.all_addBinding name slot⟩
  | written name value slot _ _ happly =>
    rw [after_of_ok happly]
    exact ⟨env.scopes.current.bindings, env.scopes.all_eq⟩
  | refused e hrefused =>
    rw [after_of_error hrefused.apply_eq]
    exact ⟨env.scopes.current.bindings, env.scopes.all_eq⟩

theorem stored_after (env : Environment) (op : ScopeOp) (slot : Slot)
    (hslot : slot.index < env.memory.cells.size) :
    (op.after env).memory.content slot = env.memory.content slot ∨
      ∃ name value, op = .set name value ∧ env.scopes.lookupCurrent name = some slot := by
  cases outcome env op with
  | pushed _ _ happly | dropped _ _ _ happly | nothing _ happly =>
    left
    rw [after_of_ok happly]
  | added _ _ _ _ _ hmemory happly | addedGlobal _ _ _ _ _ _ hmemory happly =>
    left
    rw [after_of_ok happly]
    exact hmemory.content slot hslot
  | written name value target hop hbound happly =>
    by_cases hsame : slot = target
    · subst hsame
      exact .inr ⟨name, value, hop, hbound⟩
    · left
      rw [after_of_ok happly]
      exact Memory.content_write_of_ne hslot hsame value
  | refused e hrefused =>
    left
    rw [after_of_error hrefused.apply_eq]

/-- The same scopes, but for global names that the operations have defined. -/
def Gains (ops : List ScopeOp) (before later : ScopeStack) : Prop :=
  later.inner = before.inner ∧ ∃ added, later.global = added ++ before.global ∧
    ∀ name ∈ added.map (·.1), lookupName name before.global = none ∧
      ∃ value, ScopeOp.defineGlobal name value ∈ ops

theorem Gains.refl (ops : List ScopeOp) (stack : ScopeStack) : Gains ops stack stack :=
  ⟨rfl, [], rfl, by simp⟩

theorem Gains.trans (h : Gains [op] before middle) (h' : Gains ops middle later) :
    Gains (op :: ops) before later := by
  obtain ⟨hinner, first, hfirst, hnew⟩ := h
  obtain ⟨hinner', second, hsecond, hnew'⟩ := h'
  refine ⟨hinner'.trans hinner, second ++ first, by simp [hsecond, hfirst], fun name hname => ?_⟩
  rw [List.map_append, List.mem_append] at hname
  rcases hname with hname | hname
  · obtain ⟨hnone, value, hvalue⟩ := hnew' name hname
    rw [hfirst, lookupName_append, Option.or_eq_none_iff] at hnone
    exact ⟨hnone.2, value, List.mem_cons_of_mem _ hvalue⟩
  · obtain ⟨hnone, value, hvalue⟩ := hnew name hname
    exact ⟨hnone, value, List.mem_cons.mpr (.inl (List.mem_singleton.mp hvalue))⟩

/-- What was found is found, and else only a new global name is. -/
theorem Gains.lookup (h : Gains ops before later) (name : String) :
    later.lookup name = before.lookup name ∨
      before.lookup name = none ∧ ∃ value, ScopeOp.defineGlobal name value ∈ ops := by
  obtain ⟨hinner, added, hglobal, hnew⟩ := h
  simp only [ScopeStack.lookup, ScopeStack.lookupFrom_eq, hinner, hglobal, lookupName_append]
  by_cases hname : name ∈ added.map (·.1)
  · obtain ⟨hnone, hdefined⟩ := hnew name hname
    cases List.findSome? (fun scope => lookupName name scope.bindings)
      (before.inner.take (before.inner.findIdx Scope.isolated + 1)) with
    | none => simp [hnone, hdefined]
    | some slot => simp
  · simp [lookupName_eq_none.mpr hname]

theorem StaysAbove.depth_le (h : StaysAbove depth env ops) : depth ≤ env.scopes.depth := by
  cases ops with
  | nil => exact h
  | cons op ops =>
    have habove := h.1
    omega

/-- An operation above a depth leaves the scopes up to it. -/
theorem gains_after (hpos : 0 < depth)
    (habove : depth < env.scopes.depth ∨
      depth = env.scopes.depth ∧ ∃ opening, op = .push opening)
    (hlater : depth ≤ (op.after env).scopes.depth) :
    Gains [op] (env.scopes.truncate depth) ((op.after env).scopes.truncate depth) := by
  cases outcome env op with
  | pushed opening hop happly =>
    rw [after_of_ok happly, ScopeStack.push, ScopeStack.truncate_cons]
    · exact .refl _ _
    · change depth ≤ env.scopes.depth
      omega
  | dropped count _ _ happly =>
    rw [after_of_ok happly] at hlater ⊢
    rw [ScopeStack.truncate_drop _ _ _ hlater]
    exact .refl _ _
  | added name slot memory hopenings _ _ happly =>
    have hlt : depth < env.scopes.depth := by
      rcases habove with hlt | ⟨-, opening, rfl⟩
      · exact hlt
      · simpa [openings] using hopenings []
    rw [after_of_ok happly, ScopeStack.truncate_addBinding _ _ _ hpos hlt]
    exact .refl _ _
  | addedGlobal name value slot memory hop hnew _ happly =>
    rw [after_of_ok happly, hop]
    refine ⟨rfl, [(name, slot)], rfl, ?_⟩
    simpa [ScopeStack.truncate_global] using hnew
  | written _ _ _ _ _ happly | nothing _ happly =>
    rw [after_of_ok happly]
    exact .refl _ _
  | refused e hrefused =>
    rw [after_of_error hrefused.apply_eq]
    exact .refl _ _

theorem gains_runFrom (hpos : 0 < depth) (h : StaysAbove depth env more) :
    Gains more (env.scopes.truncate depth) ((runFrom env more).scopes.truncate depth) := by
  induction more generalizing env with
  | nil => exact .refl _ _
  | cons op more ih => exact (gains_after hpos h.1 h.2.depth_le).trans (ih h.2)

end ScopeOp

/-- What holds of the scopes after any operations on the global scope alone. -/
theorem scope_laws (ops : List ScopeOp) : ScopeLaws ops (ScopeOp.run ops) where
  depth := by
    rw [ScopeStack.depth, ← List.length_map Scope.bare, (ScopeOp.run_sound ops).scopes,
      Opening.scopes_length]
  scopes := by
    simp [ScopeStack.all, (ScopeOp.run_sound ops).scopes, Scope.bare, Scope.block]
  distinct := (ScopeOp.run_sound ops).distinct
  lookup name := by
    rw [ScopeStack.lookup, ScopeStack.lookupFrom_eq, ScopeStack.findIdx_isolated
      (ScopeOp.run_sound ops).scopes]
  bottom := ScopeOp.grow_runFrom _
  innermost op := ScopeOp.innermost_after _
  stored := ScopeOp.stored_after _
  below depth more hpos h := (ScopeOp.gains_runFrom hpos h).lookup
  returns more h hdepth name := by
    have hpos : 0 < (ScopeOp.run ops).scopes.depth := Nat.succ_pos _
    have hgains := ScopeOp.gains_runFrom hpos h
    rw [ScopeStack.truncate_self (Nat.le_refl _),
      ScopeStack.truncate_self (Nat.le_of_eq hdepth)] at hgains
    exact hgains.lookup name
  fails op e := ScopeOp.apply_eq_error
  unchanged op e := ScopeOp.after_of_error

end BuildScript
