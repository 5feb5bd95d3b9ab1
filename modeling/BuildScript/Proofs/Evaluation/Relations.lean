import BuildScript.Proofs.Evaluation.Steps

/-!
Evaluations that relate the machine they find to the one they leave, for relations that hold across
nothing and across one thing after another.
-/

namespace BuildScript

/-- Whether the event is a message of an error. -/
def Event.isError : Event → Bool
  | .error _ => true
  | .printed _ | .warning _ | .debug _ => false

namespace Eval

variable {α β : Type} {R S : Machine → Machine → Prop} {ctx : Context}

/-- Whatever the evaluation does, the machines before and after it are related. What it holds on to
meanwhile plays no part. -/
def Keeps (R : Machine → Machine → Prop) (ctx : Context) ⦃α : Type⦄ (x : Eval α) : Prop :=
  ∀ (held : List Anchor) (m : Machine), R m (x { ctx with held } m).2

theorem Keeps.apply {x : Eval α} (h : Keeps R ctx x) (m : Machine) : R m (x ctx m).2 :=
  h ctx.held m

/-- A relation between machines that holds across nothing and across one thing after another. -/
structure Chains (R : Machine → Machine → Prop) : Prop where
  refl : ∀ m, R m m
  trans : ∀ {a b c}, R a b → R b c → R a c

namespace Chains

theorem pure (h : Chains R) (a : α) : Keeps R ctx (pure a) := fun _ m => h.refl m

theorem fail (h : Chains R) (fault : Fault) : Keeps R ctx (fail fault : Eval α) :=
  fun _ m => h.refl m

theorem raise (h : Chains R) (error : EvalError) : Keeps R ctx (raise error : Eval α) :=
  h.fail _

theorem ofExcept (h : Chains R) (result : Except EvalError α) :
    Keeps R ctx (Eval.ofExcept result) := fun _ m => h.refl m

theorem machine (h : Chains R) : Keeps R ctx machine := fun _ m => h.refl m

theorem update (_ : Chains R) {f : Machine → Machine} (hf : ∀ m, R m (f m)) :
    Keeps R ctx (update f) := fun _ m => hf m

theorem bind (h : Chains R) {x : Eval α} {f : α → Eval β} (hx : Keeps R ctx x)
    (hf : ∀ a, Keeps R ctx (f a)) : Keeps R ctx (x >>= f) := by
  intro held m
  have hfirst := hx held m
  rw [andThen_apply]
  cases hrun : x { ctx with held } m with
  | mk result after =>
    rw [hrun] at hfirst
    cases result with
    | ok a => exact h.trans hfirst (hf a held after)
    | error e => exact hfirst

/-- Binding a name leaves the machine alone if it fails. -/
theorem binds (h : Chains R) {name : String} {slot : Slot}
    (hbound : ∀ {m : Machine} {env}, m.env.bind name slot = .ok env → R m { m with env }) :
    Keeps R ctx (Eval.bind name slot) := by
  intro held m
  rw [bind_apply]
  cases hbind : m.env.bind name slot with
  | ok env => exact hbound hbind
  | error e => exact h.refl m

theorem defines (h : Chains R) {name : String} {value : Value}
    (hdefined : ∀ {m : Machine} {slot env},
      m.env.define name value = .ok (slot, env) → R m { m with env }) :
    Keeps R ctx (Eval.define name value) := by
  intro held m
  rw [define_apply]
  cases hdefine : m.env.define name value with
  | ok result => exact hdefined hdefine
  | error e => exact h.refl m

theorem attempt (_ : Chains R) {x : Eval α} (hx : Keeps R ctx x) : Keeps R ctx (attempt x) := hx

theorem holding (_ : Chains R) (anchors : List Anchor) {x : Eval α} (hx : Keeps R ctx x) :
    Keeps R ctx (holding anchors x) := fun held m => hx (anchors ++ held) m

theorem composes (h : Chains R) : Composes (Keeps R ctx) where
  pure := h.pure
  fail := h.fail
  bind := h.bind
  attempt := h.attempt
  holding := h.holding
  read := fun _ hf => h.bind h.machine hf

theorem sees (h : Chains R) : Sees (Keeps R ctx) :=
  h.composes.sees h.machine fun _ m => h.refl m

end Chains

/-- A relation that chains and holds across everything an evaluation can do to the machine. -/
structure Effects (R : Machine → Machine → Prop) (ctx : Context) : Prop extends Chains R where
  emit : ∀ m event, event.isError = false → R m (m.emit event)
  reportMessage : ∀ m message, R m (m.reportMessage message)
  given : ∀ (m : Machine) count, R m { m with nextId := m.nextId + count }
  files : ∀ (m : Machine) files, R m { m with files }
  defined : ∀ {m : Machine} {name value slot env},
    m.env.define name value = .ok (slot, env) → R m { m with env }
  written : ∀ (m : Machine) slot value, R m { m with env := m.env.write slot value }
  placed : ∀ (m : Machine) value,
    R m { m with env := { m.env with memory := (m.env.memory.place value).2 } }
  frame : ∀ file receiver bound lines, Keeps R ctx (inFrame file (callBody receiver bound lines))
  includeFile : ∀ path, Keeps R ctx (includeFile path)
  callHost : ∀ entry args, Keeps R ctx (callHost entry args)

namespace Effects

theorem reportAll (h : Effects R ctx) (errors : List EvalError) (m : Machine) :
    R m (m.reportAll errors) := by
  induction errors generalizing m with
  | nil => exact h.refl m
  | cons error rest ih => exact h.trans (h.reportMessage m _) (ih _)

theorem define (h : Effects R ctx) (name : String) (value : Value) :
    Keeps R ctx (define name value) := h.defines h.defined

theorem fileOperation (h : Effects R ctx)
    (operation : FileSystem → FileSystem × Option IoError) :
    Keeps R ctx (fileOperation operation) := by
  refine h.bind h.machine fun m => ?_
  exact h.bind (h.update fun m => h.files m _) fun _ => h.pure _

theorem steps (h : Effects R ctx) : Steps (Keeps R ctx) where
  toComposes := h.composes
  toSees := h.sees
  print := fun _ => h.update fun m => h.emit m _ rfl
  warn := fun _ => h.update fun m => h.emit m _ rfl
  debug := fun _ => h.update fun m => h.emit m _ rfl
  reportMessage := fun _ => h.update fun m => h.reportMessage m _
  reportAll := fun _ => h.update fun m => h.reportAll _ m
  giveIds := fun count => h.update fun m => h.given m count
  fileOperation := h.fileOperation
  define := h.define
  write := fun _ _ => h.update fun m => h.written m _ _
  place := fun value _ m => h.placed m value
  callUser := h.composes.callUser h.frame
  callProcedure := h.composes.callProcedure h.frame
  includeFile := h.includeFile
  callHost := h.callHost

end Effects

end Eval

end BuildScript
