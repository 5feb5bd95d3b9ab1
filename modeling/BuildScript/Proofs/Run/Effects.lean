import BuildScript.Proofs.Evaluation.Relations
import BuildScript.Proofs.Run.Composition
import BuildScript.Proofs.Scopes.Within

/-!
What running items does to the machine. As for evaluations, a relation that holds across the
elementary steps holds across a whole script, however it ends. The steps on scopes are told apart,
since only they open and close anything.
-/

namespace BuildScript

namespace Run

open Eval (Keeps Chains)

variable {α : Type} {R : Machine → Machine → Prop} {base : Nat} {ctx : Context}

/-- A finished statement closes all single statement bodies it can. -/
theorem closeSingles_closed (outcome : Option Bool) (scopes : List Scope) (closed : Nat) :
    (closeSingles base outcome scopes closed).2 = closed + openSingles base scopes := by
  induction scopes generalizing outcome closed with
  | nil => rfl
  | cons scope rest ih =>
    unfold closeSingles openSingles
    split
    · rw [ih]
      omega
    · rfl

/-- A relation that chains and holds across what items do to the machine when they run above the
first `base` scopes and declare nothing. -/
structure Steps (R : Machine → Machine → Prop) (base : Nat) (ctx : Context) : Prop
    extends Chains R where
  lastIf : ∀ (m : Machine) outcome, R m { m with lastIf := outcome }
  reportMessage : ∀ m message, R m (m.reportMessage message)
  evaluated : ∀ expr, Keeps R ctx (Eval.evalExpr expr)
  begun : ∀ m, R m (m.mapScopes (·.begun))
  conditional : ∀ m state, R m (m.mapScopes (·.push (.conditional state)))
  opened : ∀ m, R m (m.mapScopes (·.opened))
  singles : ∀ m, R m (m.mapScopes (·.without (openSingles base m.env.scopes.inner)))
  popped : ∀ m : Machine, base < m.env.scopes.depth → R m (m.mapScopes (·.pop.2))

namespace Steps

theorem report (h : Steps R base ctx) (fault : Fault) : Keeps R ctx (Eval.report fault) :=
  h.update fun m => h.reportMessage m _

theorem statements (h : Steps R base ctx) : Statements (Keeps R ctx) where
  toComposes := h.composes
  evaluated := h.evaluated
  report := h.report

theorem setLastIf (h : Steps R base ctx) (outcome : Option Bool) :
    Keeps R ctx (setLastIf outcome) := h.update fun m => h.lastIf m outcome

theorem scopes (h : Steps R base ctx) : Keeps R ctx scopes :=
  h.bind h.machine fun _ => h.pure _

theorem completeStatement (h : Steps R base ctx) (outcome : Option Bool) :
    Keeps R ctx (completeStatement base outcome) := by
  intro held m
  have hclosed := @closeSingles_closed base outcome m.env.scopes.inner 0
  rw [Nat.zero_add] at hclosed
  refine h.trans (h.singles m) ?_
  refine h.trans (h.lastIf _ (closeSingles base outcome m.env.scopes.inner 0).1) ?_
  rw [← hclosed]
  exact h.refl _

theorem openBlock (h : Steps R base ctx) : Keeps R ctx openBlock :=
  h.bind (h.setLastIf none) fun _ => h.update fun m => h.opened m

theorem closeBlock (h : Steps R base ctx) : Keeps R ctx (closeBlock base) := by
  refine h.bind (h.update fun m => h.singles m) fun _ => ?_
  intro held m
  simp only [Run.scopes, Eval.andThen_apply, Eval.machine_apply, Eval.pure_apply]
  split
  · exact h.bind (h.statements.recover _) (fun _ => h.pure _) held m
  · rename_i hdepth
    have hpop := h.popped m (Nat.lt_of_not_le hdepth)
    have hcomplete := h.bind (h.completeStatement (((m.env.scopes.pop).1.map
      (blockOutcome ·.state)).getD none)) fun flow => h.pure (flow.getD (ifFlow
        (((m.env.scopes.pop).1.map (blockOutcome ·.state)).getD none)))
    exact h.trans hpop (hcomplete held _)

theorem beginItem (h : Steps R base ctx) (item : Item) : Keeps R ctx (beginItem item) := by
  have hskipping : Keeps R ctx (do return (← Run.scopes).current.skipping : Eval Bool) :=
    h.bind h.scopes fun _ => h.pure _
  cases item with
  | blockOpen => exact hskipping
  | _ => exact h.bind (h.update fun m => h.begun m) fun _ => hskipping

theorem items (h : Steps R base ctx) : Items (Keeps R ctx) base where
  toStatements := h.statements
  glance _ hf := h.bind h.machine hf
  setLastIf := h.setLastIf
  conditional state := h.update fun m => h.conditional m state
  completeStatement := h.completeStatement
  beginItem := h.beginItem
  openBlock := h.openBlock
  closeBlock := h.closeBlock

end Steps

/-- A relation that moreover holds across declarations and across the lines of a script. -/
structure Effects (R : Machine → Machine → Prop) (base : Nat) (ctx : Context) : Prop
    extends Steps R base ctx where
  atLine : ∀ (m : Machine) line, R m { m with line }
  given : ∀ (m : Machine) count, R m { m with nextId := m.nextId + count }
  registered : ∀ {m m' : Machine} {template}, m.registerClass template = .ok m' → R m m'
  defined : ∀ {m : Machine} {name value slot env},
    m.env.define name value = .ok (slot, env) → R m { m with env }

namespace Effects

theorem giveIds (h : Effects R base ctx) (count : Nat) : Keeps R ctx (Eval.giveIds count) :=
  h.update fun m => h.given m count

theorem define (h : Effects R base ctx) (name : String) (value : Value) :
    Keeps R ctx (Eval.define name value) := by
  intro held m
  rw [Eval.define_apply]
  cases hdefine : m.env.define name value with
  | ok result => exact h.defined hdefine
  | error e => exact h.refl m

theorem registerTemplate (h : Effects R base ctx) (template : ClassTemplate) :
    Keeps R ctx (registerTemplate template) := by
  intro held m
  cases hfind : m.classes.find? template.name with
  | some found =>
    rw [registerTemplate_known hfind]
    exact h.refl m
  | none =>
    rw [registerTemplate_new hfind]
    have hregister : m.registerClass template =
        .ok { m with classes := m.classes ++ [template] } := by
      unfold Machine.registerClass
      rw [hfind]
    exact h.registered hregister

/-- What holds across every step holds across the lines of a script. -/
theorem lines (h : Effects R base ctx) : Lines (Keeps R ctx) base where
  toItems := h.items
  atLine line := h.update fun m => h.atLine m line
  giveIds := h.giveIds
  define := h.define
  registerTemplate := h.registerTemplate
  counted := counted_of_machine h.composes h.machine

end Effects

end Run

end BuildScript
