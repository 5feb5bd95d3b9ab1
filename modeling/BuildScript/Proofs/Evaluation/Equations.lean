import BuildScript.Run.Session

/-!
How the combinators of an evaluation act on a context and a machine, one equation for each.
-/

namespace BuildScript

/-- Contexts of one depth differ in what they hold on to only. -/
theorem Session.context_held (host : Host) (budget : Nat) (held held' : List Anchor) :
    { context host budget held with held := held' } = context host budget held' := by
  cases budget <;> rfl

/-- What a machine has told: what was printed and reported, and how many errors were among it. -/
structure Log where
  events : List Event
  errorFlag : Bool
  errorCount : Nat

namespace Machine

def log (m : Machine) : Log := ⟨m.events, m.errorFlag, m.errorCount⟩

/-- The machine with another log. -/
def withLog (m : Machine) (log : Log) : Machine :=
  { m with
    events := log.events
    errorFlag := log.errorFlag
    errorCount := log.errorCount }

variable (m : Machine) (log : Log)

@[simp]
theorem withLog_env : (m.withLog log).env = m.env := rfl

@[simp]
theorem withLog_classes : (m.withLog log).classes = m.classes := rfl

@[simp]
theorem withLog_files : (m.withLog log).files = m.files := rfl

@[simp]
theorem withLog_scriptPath (path : String) :
    (m.withLog log).scriptPath path = m.scriptPath path := rfl

end Machine

namespace Eval

variable {α β : Type}

@[simp]
theorem pure_apply (a : α) (ctx : Context) (m : Machine) : (pure a : Eval α) ctx m = (.ok a, m) :=
  rfl

theorem andThen_apply (x : Eval α) (f : α → Eval β) (ctx : Context) (m : Machine) :
    (x >>= f) ctx m = match x ctx m with
      | (.ok a, m) => f a ctx m
      | (.error e, m) => (.error e, m) := rfl

theorem andThen_apply_ok {x : Eval α} {f : α → Eval β} {ctx : Context} {m m' : Machine} {a : α}
    (h : x ctx m = (.ok a, m')) : (x >>= f) ctx m = f a ctx m' := by
  rw [andThen_apply, h]

theorem andThen_apply_error {x : Eval α} {f : α → Eval β} {ctx : Context} {m m' : Machine}
    {e : Fault} (h : x ctx m = (.error e, m')) : (x >>= f) ctx m = (.error e, m') := by
  rw [andThen_apply, h]

/-- A composition that succeeds is one success after another. -/
theorem andThen_ok {x : Eval α} {f : α → Eval β} {ctx : Context} {m after : Machine} {b : β}
    (h : (x >>= f) ctx m = (.ok b, after)) :
    ∃ a between, x ctx m = (.ok a, between) ∧ f a ctx between = (.ok b, after) := by
  rw [andThen_apply] at h
  cases hx : x ctx m with
  | mk result between =>
    rw [hx] at h
    cases result with
    | ok a => exact ⟨a, between, rfl, h⟩
    | error e => cases h

@[simp]
theorem liftM_eq (result : Except EvalError α) : (liftM result : Eval α) = Eval.ofExcept result :=
  rfl

@[simp]
theorem ofExcept_apply (result : Except EvalError α) (ctx : Context) (m : Machine) :
    Eval.ofExcept result ctx m = (result.mapError .eval, m) := rfl

@[simp]
theorem fail_apply (fault : Fault) (ctx : Context) (m : Machine) :
    (fail fault : Eval α) ctx m = (.error fault, m) := rfl

@[simp]
theorem raise_apply (error : EvalError) (ctx : Context) (m : Machine) :
    (raise error : Eval α) ctx m = (.error (.eval error), m) := rfl

@[simp]
theorem machine_apply (ctx : Context) (m : Machine) : machine ctx m = (.ok m, m) := rfl

@[simp]
theorem update_apply (f : Machine → Machine) (ctx : Context) (m : Machine) :
    update f ctx m = (.ok (), f m) := rfl

@[simp]
theorem attempt_apply (x : Eval α) (ctx : Context) (m : Machine) :
    attempt x ctx m = (.ok (x ctx m).1, (x ctx m).2) := rfl

@[simp]
theorem holding_apply (anchors : List Anchor) (x : Eval α) (ctx : Context) (m : Machine) :
    holding anchors x ctx m = x { ctx with held := anchors ++ ctx.held } m := rfl

@[simp]
theorem runBody_apply (lines : List Text.SourceLine) (inFunction : Bool) (ctx : Context)
    (m : Machine) : runBody lines inFunction ctx m = ctx.runBody ctx.held lines inFunction m := rfl

theorem define_apply (name : String) (value : Value) (ctx : Context) (m : Machine) :
    define name value ctx m = match m.env.define name value with
      | .ok (slot, env) => (.ok slot, { m with env })
      | .error e => (.error (.eval e), m) := by
  cases hdefine : m.env.define name value with
  | ok result =>
    simp only [define, andThen_apply, machine_apply, liftM_eq, ofExcept_apply, hdefine]
    rfl
  | error e =>
    simp only [define, andThen_apply, machine_apply, liftM_eq, ofExcept_apply, hdefine]
    rfl

theorem bind_apply (name : String) (slot : Slot) (ctx : Context) (m : Machine) :
    bind name slot ctx m = match m.env.bind name slot with
      | .ok env => (.ok (), { m with env })
      | .error e => (.error (.eval e), m) := by
  cases hbind : m.env.bind name slot with
  | ok env =>
    simp only [bind, andThen_apply, machine_apply, liftM_eq, ofExcept_apply, hbind]
    rfl
  | error e =>
    simp only [bind, andThen_apply, machine_apply, liftM_eq, ofExcept_apply, hbind]
    rfl

/-- What was defined has the slot that the environment gave it. -/
theorem define_ok {name : String} {value : Value} {ctx : Context} {m after : Machine} {slot : Slot}
    (h : define name value ctx m = (.ok slot, after)) :
    ∃ env, m.env.define name value = .ok (slot, env) ∧ after = { m with env } := by
  rw [define_apply] at h
  cases hdefine : m.env.define name value with
  | error e =>
    rw [hdefine] at h
    cases h
  | ok result =>
    rw [hdefine] at h
    cases h
    exact ⟨result.2, rfl, rfl⟩

theorem bind_ok {name : String} {slot : Slot} {ctx : Context} {m after : Machine}
    (h : bind name slot ctx m = (.ok (), after)) :
    ∃ env, m.env.bind name slot = .ok env ∧ after = { m with env } := by
  rw [bind_apply] at h
  cases hbind : m.env.bind name slot with
  | error e =>
    rw [hbind] at h
    cases h
  | ok env =>
    rw [hbind] at h
    cases h
    exact ⟨env, rfl, rfl⟩

theorem defineReceiver_apply (id : ObjectId) (ctx : Context) (m : Machine) :
    defineReceiver id ctx m =
      let pushed := m.env.memory.push (.object id)
      let env := { m.env with memory := pushed.2 }
      match env.bind "this" pushed.1 with
      | .ok env => (.ok (), { m with env })
      | .error e => (.error (.eval e), { m with env }) := by
  unfold defineReceiver
  rw [andThen_apply, machine_apply]
  dsimp only
  rw [andThen_apply, update_apply]
  dsimp only
  rw [bind_apply]

theorem recover_apply (fault : Fault) (ctx : Context) (m : Machine) :
    recover fault ctx m =
      if m.callDepth > 0 && fault.isFatal then (.error fault, m) else (.ok (), m.report fault) := by
  unfold recover
  rw [andThen_apply, machine_apply]
  dsimp only
  split <;> rfl

/-- A fault that ends one statement only is reported where it is caught. -/
theorem recover_common {fault : Fault} (h : fault.isFatal = false) (ctx : Context) (m : Machine) :
    recover fault ctx m = (.ok (), m.report fault) := by
  rw [recover_apply, h, Bool.and_false]
  rfl

theorem checkCallDepth_apply (ctx : Context) (m : Machine) :
    checkCallDepth ctx m =
      if m.callDepth ≥ m.options.maxCallDepth then
        (.error (.eval (.callDepthExceeded m.options.maxCallDepth)), m)
      else (.ok (), m) := by
  unfold checkCallDepth
  rw [andThen_apply, machine_apply]
  dsimp only
  split <;> rfl

/-- The same result twice, and machines that are related. -/
def Agree {ε α : Type} (R : Machine → Machine → Prop) (x x' : Except ε α × Machine) : Prop :=
  x.1 = x'.1 ∧ R x.2 x'.2

/-- The machine at the start of a call declared in `file`. -/
def entered (file : String) (m : Machine) : Machine :=
  { m with
    file := file
    lastIf := none
    callDepth := m.callDepth + 1
    env := { m.env with scopes := m.env.scopes.push .call } }

/-- The machine once a call that began in `caller` and ended in `m` has been left. -/
def left (caller m : Machine) : Machine :=
  { m with
    file := caller.file
    line := caller.line
    lastIf := caller.lastIf
    callDepth := m.callDepth - 1
    env := { m.env with scopes := m.env.scopes.truncate caller.env.scopes.depth } }

/-- Goes on with a result that was held back. -/
def ofResult : Except Fault α → Eval α
  | .ok a => pure a
  | .error fault => fail fault

theorem inFrame_apply (file : String) (body : Eval α) (ctx : Context) (m : Machine) :
    inFrame file body ctx m =
      ((body ctx (entered file m)).1, left m (body ctx (entered file m)).2) := by
  show ofResult (body ctx (entered file m)).1 ctx (left m (body ctx (entered file m)).2) = _
  cases (body ctx (entered file m)).1 <;> rfl

/-- The machine at the first line of a file. -/
def opened (name : String) (m : Machine) : Machine :=
  { m with file := name, line := 0, errorFlag := false, lastIf := none }

/-- The machine after a file: a fault that ended it is reported there. -/
def closed (result : Except Fault Flow × Machine) : Machine :=
  match result.1 with
  | .error fault => result.2.report fault
  | .ok _ => result.2

theorem runSource_apply (name text : String) (ctx : Context) (m : Machine) :
    runSource name text ctx m =
      let after := closed (ctx.runBody ctx.held (Text.SourceLine.split text) false (opened name m))
      (.ok (!after.errorFlag), after) := by
  let body := ctx.runBody ctx.held (Text.SourceLine.split text) false (opened name m)
  show (match body.1 with
    | .error fault => do
      report fault
      return !(← machine).errorFlag
    | .ok _ => do return !(← machine).errorFlag : Eval Bool) ctx body.2 =
      (.ok (!(closed body).errorFlag), closed body)
  unfold closed
  cases body.1 <;> rfl

theorem includeFile_apply (path : String) (ctx : Context) (m : Machine) :
    includeFile path ctx m =
      if m.includeDepth ≥ m.options.maxIncludeDepth then
        (.error (.eval (.includeDepthExceeded m.options.maxIncludeDepth)), m)
      else
        match m.files.readText (m.scriptPath path) with
        | .error e => (.error (.eval (.io path e.message)), m)
        | .ok text =>
          let after := closed (ctx.runBody ctx.held (Text.SourceLine.split text) false
            (opened (m.scriptPath path) { m with includeDepth := m.includeDepth + 1 }))
          (.ok (!after.errorFlag),
            { after with
              includeDepth := after.includeDepth - 1
              file := m.file
              line := m.line
              errorFlag := m.errorFlag
              lastIf := m.lastIf }) := by
  unfold includeFile
  rw [andThen_apply, machine_apply]
  dsimp only
  split
  · rfl
  · cases m.files.readText (m.scriptPath path) with
    | error e => rfl
    | ok text =>
      dsimp only
      rw [andThen_apply, update_apply]
      dsimp only
      rw [andThen_apply, runSource_apply]
      rfl

end Eval

/-- The machine at the end of a file that is included, before it is left. -/
def Context.fileEnd (ctx : Context) (held : List Anchor) (lines : List Text.SourceLine)
    (name : String) (m : Machine) : Machine :=
  Eval.closed (ctx.runBody held lines false
    (Eval.opened name { m with includeDepth := m.includeDepth + 1 }))

/-- The machine once a file that `caller` included has been left. -/
def Eval.fileLeft (caller m : Machine) : Machine :=
  { m with
    includeDepth := m.includeDepth - 1
    file := caller.file
    line := caller.line
    errorFlag := caller.errorFlag
    lastIf := caller.lastIf }

end BuildScript
