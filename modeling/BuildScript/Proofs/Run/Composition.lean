import BuildScript.Proofs.Evaluation.Steps
import BuildScript.Run.Session

/-!
What holds of running lines because it holds of their elementary steps. Statements evaluate
expressions and report their faults: what composes, and holds of expressions and of reports, holds of
statements. As for expressions, a property of evaluations that survives composition is had by every
item, every line and every script once the few steps have it that touch scopes, names and classes.
-/

namespace BuildScript.Run

open Eval (Composes machine update)

variable {α : Type} {base : Nat} {T : ∀ ⦃α : Type⦄, Eval α → Prop}

/-- A property that survives composition and that evaluating an expression and reporting a fault
have. -/
structure Statements (T : ∀ ⦃α : Type⦄, Eval α → Prop) : Prop extends Composes T where
  evaluated : ∀ expr, T (Eval.evalExpr expr)
  report : ∀ fault, T (Eval.report fault)

theorem Statements.of_steps (h : Eval.Steps T) : Statements T where
  toComposes := h.toComposes
  evaluated := h.evalExpr
  report := h.report

theorem guarded_error {flow : Eval Flow} {ctx : Context} {m after : Machine} {fault : Fault}
    (h : flow ctx m = (.error fault, after)) :
    guarded flow ctx m = (do
      Eval.recover fault
      return Flow.error : Eval Flow) ctx after := by
  unfold guarded
  rw [Eval.andThen_apply, Eval.attempt_apply, h]

namespace Statements

theorem recover (h : Statements T) (fault : Fault) : T (Eval.recover fault) :=
  h.toComposes.recover h.report fault

theorem evalValue (h : Statements T) (expr : Expr) : T (Eval.evalValue expr) :=
  h.toComposes.valueBy (h.evaluated expr)

theorem parsed (h : Statements T) (expr : Except SyntaxError Expr) : T (parsed expr) := by
  cases expr with
  | ok expr => exact h.pure expr
  | error e => exact h.fail (.parse e)

theorem conditionHolds (h : Statements T) (condition : Except SyntaxError Expr) :
    T (conditionHolds condition) :=
  h.bind (h.parsed condition) fun expr => h.bind (h.evalValue expr) fun _ => h.ofExcept _

theorem expressionFlow (h : Statements T) (expr : Expr) : T (expressionFlow expr) := by
  refine h.bind (h.evaluated expr) fun operand => h.read (fun m _ _ _ _ => ?_) fun m => ?_
  · cases operand <;> rfl
  · split
    · exact h.pure _
    · exact h.bind (h.require operand) fun operand => h.bind (h.valueOf operand) fun _ => h.pure _

theorem guarded (h : Statements T) {flow : Eval Flow} (hflow : T flow) : T (guarded flow) := by
  refine h.bind (h.attempt hflow) fun result => ?_
  split
  · exact h.pure _
  · exact h.bind (h.recover _) fun _ => h.pure _

theorem returned (h : Statements T) (expr : Option (Except SyntaxError Expr)) :
    T (returned expr) := by
  cases expr with
  | none => exact h.pure none
  | some expr =>
    refine h.bind (h.attempt (h.bind (h.parsed expr) h.evalValue)) fun result => ?_
    split
    · exact h.pure _
    · exact h.bind (h.recover _) fun _ => h.pure _

end Statements

/-- Runs something as a line: it failed if an error was reported meanwhile, unless it returned. -/
def counted (flow : Eval Flow) : Eval Flow := do
  let before := (← machine).errorCount
  match ← flow with
  | .giveBack value => return .giveBack value
  | flow => return if (← machine).errorCount > before then .error else flow

theorem registerTemplate_new {template : ClassTemplate} {m : Machine}
    (h : m.classes.find? template.name = none) (ctx : Context) :
    registerTemplate template ctx m = (.ok (), { m with classes := m.classes ++ [template] }) := by
  unfold registerTemplate
  rw [Eval.andThen_apply_ok (Eval.machine_apply ctx m)]
  unfold Machine.registerClass
  rw [h]
  rfl

theorem registerTemplate_known {template found : ClassTemplate} {m : Machine}
    (h : m.classes.find? template.name = some found) (ctx : Context) :
    registerTemplate template ctx m = (.error (.eval (.classRedefined template.name)), m) := by
  unfold registerTemplate
  rw [Eval.andThen_apply_ok (Eval.machine_apply ctx m)]
  unfold Machine.registerClass
  rw [h]
  rfl

/-- A property that survives composition and that the elementary steps of items have that close no
scope. What is read off the machine may be anything but its scopes and its log. -/
structure Opens (T : ∀ ⦃α : Type⦄, Eval α → Prop) : Prop extends Statements T where
  glance : ∀ {α : Type} {f : Machine → Eval α},
    (∀ (m : Machine) scopes log, f ({ m with env := { m.env with scopes } }.withLog log) = f m) →
      (∀ m, T (f m)) → T (machine >>= f)
  setLastIf : ∀ outcome, T (setLastIf outcome)
  conditional : ∀ state, T (updateScopes (·.push (.conditional state)))
  beginItem : ∀ item, T (beginItem item)
  openBlock : T openBlock

/-- A property that those have, too, that close scopes above the first `base` ones. -/
structure Items (T : ∀ ⦃α : Type⦄, Eval α → Prop) (base : Nat) : Prop extends Opens T where
  completeStatement : ∀ outcome, T (completeStatement base outcome)
  closeBlock : T (closeBlock base)

/-- A property that the elementary steps of declarations have. -/
structure Declares (T : ∀ ⦃α : Type⦄, Eval α → Prop) : Prop extends Opens T where
  atLine : ∀ line, T (update fun m => { m with line })
  giveIds : ∀ count, T (Eval.giveIds count)
  define : ∀ name value, T (Eval.define name value)
  registerTemplate : ∀ template, T (registerTemplate template)

/-- A property that the elementary steps of lines have, and counting the errors of a line. -/
structure Lines (T : ∀ ⦃α : Type⦄, Eval α → Prop) (base : Nat) : Prop
    extends Items T base, Declares T where
  counted : ∀ {flow : Eval Flow}, T flow → T (counted flow)

namespace Opens

theorem enterIf (h : Opens T) (skipping : Bool) {condition : Eval Bool} (hcondition : T condition) :
    T (enterIf skipping condition) := by
  refine h.bind (h.setLastIf none) fun _ => ?_
  dsimp only
  split
  · exact h.bind (h.pure _) h.conditional
  · refine h.bind (h.attempt hcondition) fun result => ?_
    split
    · exact h.bind (h.pure _) h.conditional
    · exact h.bind (h.pure _) h.conditional
    · exact h.bind (h.recover _) fun _ => h.bind (h.pure _) h.conditional

theorem enterElse (h : Opens T) (skipping : Bool) : T (enterElse skipping) := by
  have hpush (state : BlockState) : T (do
      Run.setLastIf none
      updateScopes (·.push (.conditional state))
      return Flow.elseMark : Eval Flow) :=
    h.bind (h.setLastIf none) fun _ => h.bind (h.conditional _) fun _ => h.pure _
  refine h.glance (fun _ _ _ => rfl) fun m => ?_
  dsimp only
  split
  · exact h.bind (h.pure _) hpush
  · exact h.bind (h.report _) fun _ => h.bind (h.pure _) hpush
  · exact h.bind (h.pure _) hpush

theorem reject (h : Opens T) (skipping : Bool) (error : SyntaxError) :
    T (reject skipping error) := by
  unfold Run.reject
  split
  · exact h.recover _
  · exact h.pure _

end Opens

namespace Items

theorem finishStatement (h : Items T base) (flow : Flow) : T (finishStatement base flow) :=
  h.bind (h.completeStatement none) fun _ => h.pure _

theorem runReturn (h : Items T base) (inFunction skipping : Bool)
    (expr : Option (Except SyntaxError Expr)) : T (runReturn base inFunction skipping expr) := by
  unfold Run.runReturn
  split
  · exact h.finishStatement _
  · split
    · exact h.bind (h.recover _) fun _ => h.finishStatement _
    · exact h.bind (h.returned expr) fun _ => h.pure _

/-- What holds of every step holds of an item that declares nothing. -/
theorem runUndeclared (h : Items T base) (inFunction : Bool) {item : Item}
    (hitem : ∀ header body, item ≠ .declaration header body) :
    T (runItem base inFunction item) := by
  refine h.bind (h.beginItem item) fun skipping => ?_
  cases item with
  | condition expr =>
    exact h.bind (h.enterIf skipping (h.conditionHolds expr)) fun _ => h.pure _
  | elseMark => exact h.enterElse skipping
  | blockOpen => exact h.bind h.openBlock fun _ => h.pure _
  | blockClose => exact h.closeBlock
  | giveBack expr => exact h.runReturn inFunction skipping expr
  | expression expr =>
    dsimp only
    split
    · exact h.bind (h.pure _) fun flow => h.finishStatement flow
    · exact h.bind (h.guarded (h.expressionFlow expr)) fun flow => h.finishStatement flow
  | declaration header body => exact absurd rfl (hitem header body)
  | rejected error => exact h.bind (h.reject skipping error) fun _ => h.finishStatement _
  | malformed error => exact h.bind (h.reject skipping error) fun _ => h.pure _

end Items

namespace Declares

theorem addEntry (h : Declares T) (template : ClassTemplate) (entry : ClassEntry) :
    T (addEntry template entry) := by
  refine h.bind (h.atLine _) fun _ => ?_
  split
  · exact h.bind (h.recover _) fun _ => h.pure _
  · exact h.pure _
  · exact h.glance (fun _ _ _ => rfl) fun m => h.pure _

theorem addEntries (h : Declares T) (template : ClassTemplate) (entries : List ClassEntry) :
    T (addEntries template entries) := by
  induction entries generalizing template with
  | nil => exact h.pure template
  | cons entry rest ih => exact h.bind (h.addEntry template entry) ih

theorem declareHeader (h : Declares T) (header : Header) (body : List Text.SourceLine) :
    T (declareHeader header body) := by
  refine h.glance (fun _ _ _ => rfl) fun m => ?_
  cases header with
  | function signature => exact h.bind (h.define _ _) fun _ => h.giveIds 1
  | procedure name => exact h.bind (h.define _ _) fun _ => h.giveIds 1
  | classNamed name =>
    have hbuild : T (buildClass name body) :=
      h.glance (fun _ _ _ => rfl) fun m => h.bind (h.addEntries _ _) fun template =>
        h.bind (h.atLine _) fun _ => h.pure _
    exact h.bind hbuild fun template => h.bind (h.registerTemplate template) fun _ => h.giveIds _

end Declares

namespace Lines

theorem runDeclaration (h : Lines T base) (skipping : Bool) (header : Header)
    (body : Except SyntaxError (List Text.SourceLine)) :
    T (runDeclaration base skipping header body) := by
  cases body with
  | error e => exact h.bind (h.reject skipping e) fun _ => h.finishStatement _
  | ok body =>
    unfold Run.runDeclaration
    dsimp only
    split
    · exact h.bind (h.pure _) fun flow => h.finishStatement flow
    · refine h.bind (h.guarded ?_) fun flow => h.finishStatement flow
      exact h.bind (h.declareHeader header body) fun _ => h.pure _

/-- What holds of every step holds of an item. -/
theorem runItem (h : Lines T base) (inFunction : Bool) (item : Item) :
    T (runItem base inFunction item) := by
  by_cases hitem : ∃ header body, item = .declaration header body
  · obtain ⟨header, body, rfl⟩ := hitem
    exact h.bind (h.beginItem _) fun skipping => h.runDeclaration skipping header body
  · exact h.runUndeclared inFunction fun header body heq => hitem ⟨header, body, heq⟩

theorem runItems (h : Lines T base) (inFunction : Bool) (flow : Flow) (items : List Item) :
    T (runItems base inFunction flow items) := by
  induction items generalizing flow with
  | nil => exact h.pure flow
  | cons item rest ih =>
    refine h.bind (h.runItem inFunction item) fun flow => ?_
    split
    · exact h.pure _
    · exact ih _

theorem runLine (h : Lines T base) (inFunction : Bool) (items : List Item) :
    T (runLine base inFunction items) :=
  h.counted (h.runItems inFunction .nothing items)

theorem runScript (h : Lines T base) (inFunction : Bool) (flow : Flow) (script : Script) :
    T (runScript base inFunction flow script) := by
  induction script generalizing flow with
  | nil => exact h.pure flow
  | cons line rest ih =>
    refine h.bind (h.atLine _) fun _ => ?_
    split
    · exact h.bind (h.report _) fun _ => ih _
    · refine h.bind (h.runLine inFunction _) fun flow => ?_
      split
      · exact h.pure _
      · exact ih _

end Lines

/-- What holds of every step, above any number of scopes, holds of running lines to their end. -/
theorem Lines.runLines (h : ∀ base, Lines T base) (hscopes : T scopes)
    (htruncate : ∀ base, T (updateScopes (·.truncate base))) (lines : List Text.SourceLine)
    (inFunction : Bool) : T (runLines lines inFunction) := by
  refine (h 0).bind hscopes fun stack => ?_
  refine (h 0).bind ((h 0).attempt ((h _).runScript inFunction .nothing _)) fun result => ?_
  have hrest : T (do
      updateScopes (·.truncate stack.depth)
      Eval.ofResult result : Eval Flow) := by
    refine (h 0).bind (htruncate _) fun _ => ?_
    cases result with
    | ok flow => exact (h 0).pure _
    | error fault => exact (h 0).fail _
  dsimp only
  split
  · exact hrest
  · exact hrest
  · refine (h 0).bind hscopes fun stack => ?_
    split
    · exact (h 0).bind ((h 0).report _) fun _ => hrest
    · exact hrest

/-- What holds of every step above the global scope holds of a fed line. -/
theorem Lines.feedLine (h : Lines T 1) (text : String) : T (Session.feedLine text) := by
  have hsettle {flow : Eval Flow} (hflow : T flow) : T (Session.settle flow) := by
    refine h.bind (h.attempt hflow) fun result => ?_
    split
    · exact h.pure _
    · exact h.bind (h.report _) fun _ => h.pure _
  unfold Session.feedLine
  split
  · exact h.glance (fun _ _ _ => rfl) fun m => hsettle (h.runLine false _)
  · exact h.bind (h.report _) fun _ => h.pure _

/-- Where the whole machine can be read, so can the number of errors. -/
theorem counted_of_machine (h : Composes T) (hmachine : T Eval.machine) {flow : Eval Flow}
    (hflow : T flow) : T (counted flow) := by
  refine h.bind hmachine fun _ => h.bind hflow fun flow => ?_
  split
  · exact h.pure _
  · exact h.bind hmachine fun _ => h.pure _

/-- The steps that touch the scopes, where any change of them has the property. -/
theorem Statements.items (h : Statements T)
    (hglance : ∀ {α : Type} {f : Machine → Eval α},
      (∀ (m : Machine) scopes log, f ({ m with env := { m.env with scopes } }.withLog log) = f m) →
        (∀ m, T (f m)) → T (machine >>= f))
    (hread : T scopes) (hlast : ∀ outcome, T (setLastIf outcome))
    (hscopes : ∀ f, T (updateScopes f)) (base : Nat) : Items T base := by
  have hcomplete (outcome : Option Bool) : T (completeStatement base outcome) :=
    h.bind hread fun _ => h.bind (hscopes _) fun _ => h.bind (hlast _) fun _ => h.pure _
  have hskipping : T (do return (← scopes).current.skipping : Eval Bool) :=
    h.bind hread fun _ => h.pure _
  refine ⟨⟨h, hglance, hlast, fun _ => hscopes _, fun item => ?_, ?_⟩, hcomplete, ?_⟩
  · cases item with
    | blockOpen => exact hskipping
    | _ => exact h.bind (hscopes _) fun _ => hskipping
  · exact h.bind (hlast none) fun _ => hscopes _
  · refine h.bind (hscopes _) fun _ => h.bind hread fun stack => ?_
    dsimp only
    split
    · exact h.bind (h.recover _) fun _ => h.pure _
    · exact h.bind (hscopes _) fun _ => h.bind (hcomplete _) fun _ => h.pure _

end BuildScript.Run
