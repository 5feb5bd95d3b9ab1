import BuildScript.Proofs.Likeness.Calls
import BuildScript.Proofs.Run.Building
import BuildScript.Proofs.Run.Composition

/-!
Lines run side by side. The items of two lines are the same but for the bodies they declare; as long
as a body declared on one side is as good as the one declared on the other, the lines stay coupled.
-/

namespace BuildScript

open Text (SourceLine)

/-- The same item but for the body it declares: `B` compares those of functions and procedures, `C`
those of classes. -/
inductive Item.Alike (B C : List SourceLine → List SourceLine → Prop) : Item → Item → Prop
  | same (item) (h : ∀ header body, item ≠ .declaration header (.ok body)) : Alike B C item item
  | body (header) {body body'} (hheader : ∀ name, header ≠ .classNamed name) (h : B body body') :
    Alike B C (.declaration header (.ok body)) (.declaration header (.ok body'))
  | classBody (name) {body body'} (h : C body body') :
    Alike B C (.declaration (.classNamed name) (.ok body))
      (.declaration (.classNamed name) (.ok body'))

/-- The same item of a line of the file but for a body, under a sight. -/
abbrev Item.Akin (s : Sight) (file : String) (C : List SourceLine → List SourceLine → Prop) :
    Item → Item → Prop :=
  Alike (fun body body' => s.left file body = s.right file body') C

/-- An item is the same as itself if the body it declares, if any, is. -/
theorem Item.Alike.self {B C : List SourceLine → List SourceLine → Prop} {item : Item}
    (hB : ∀ header body, (∀ name, header ≠ .classNamed name) →
      item = .declaration header (.ok body) → B body body)
    (hC : ∀ name body, item = .declaration (.classNamed name) (.ok body) → C body body) :
    item.Alike B C item := by
  by_cases hdeclares : ∃ header body, item = .declaration header (.ok body)
  · obtain ⟨header, body, rfl⟩ := hdeclares
    by_cases hclass : ∃ name, header = .classNamed name
    · obtain ⟨name, rfl⟩ := hclass
      exact .classBody name (hC name body rfl)
    · have hheader (name : String) : header ≠ .classNamed name := fun heq => hclass ⟨name, heq⟩
      exact .body header hheader (hB header body hheader rfl)
  · exact .same item fun header body heq => hdeclares ⟨header, body, heq⟩

namespace Run

open Eval (Couples Same Paired)

/-- A coupling of lines of a file. Two class bodies that `C` finds as good as each other declare the
same members but for the bodies of methods, and building a class from either is coupled. -/
structure Coupling (R : Sight → Machine → Machine → Prop) (ctx ctx' : Context) (file : String)
    (C : Sight → List SourceLine → List SourceLine → Prop) : Prop
    extends Eval.Coupling R ctx ctx' where
  here : ∀ {s m m'}, R s m m' → m.file = file
  later : ∀ {s t body body'}, s ≤ t → C s body body' → C t body body'
  told : ∀ {s m m' body body'}, R s m m' → C s body body' →
    R s (m.tellAll (ClassEntry.faults (ClassEntry.ofLines body)))
      (m'.tellAll (ClassEntry.faults (ClassEntry.ofLines body')))
  fields : ∀ {s body body'}, C s body body' →
    ClassEntry.fields (ClassEntry.ofLines body) = ClassEntry.fields (ClassEntry.ofLines body')
  methods : ∀ {s body body'} id, C s body body' →
    Callable.recastAll s.left (ClassEntry.methods file id (ClassEntry.ofLines body)) =
      Callable.recastAll s.right (ClassEntry.methods file id (ClassEntry.ofLines body'))

namespace Coupling

variable {R : Sight → Machine → Machine → Prop} {ctx ctx' : Context} {s : Sight} {file : String}
  {C : Sight → List SourceLine → List SourceLine → Prop} {α β : Type} {base : Nat}

theorem silently (h : Coupling R ctx ctx' file C) {f g : Machine → Machine}
    (hf : ∀ {m m' : Machine}, m.Akin s m' → (f m).Akin s (g m'))
    (hmute : ∀ m : Machine, m.Mute (f m)) (hmute' : ∀ m : Machine, m.Mute (g m)) :
    Couples R ctx ctx' s Same (Eval.update f) (Eval.update g) :=
  .step fun m m' hR => h.silent hR (hf (h.same hR)) (hmute m) (hmute' m')

theorem updateScopes (h : Coupling R ctx ctx' file C) (f : ScopeStack → ScopeStack) :
    Couples R ctx ctx' s Same (updateScopes f) (updateScopes f) := by
  apply h.setEnv
  intro m m' hm
  have hmemory : m.env.memory.recast s.left = m'.env.memory.recast s.right :=
    congrArg Environment.memory (Eval.env_akin hm)
  simp only [Environment.recast, Eval.scopes_akin hm, hmemory]

theorem scopes (h : Coupling R ctx ctx' file C) : Couples R ctx ctx' s Same scopes scopes :=
  h.read fun hm => .pure (Eval.scopes_akin hm)

theorem setLastIf (h : Coupling R ctx ctx' file C) (outcome : Option Bool) :
    Couples R ctx ctx' s Same (setLastIf outcome) (setLastIf outcome) :=
  h.silently (fun hm => congrArg (fun m : Machine => { m with lastIf := outcome }) hm)
    (fun _ => ⟨rfl, rfl, rfl, rfl, rfl, rfl⟩) fun _ => ⟨rfl, rfl, rfl, rfl, rfl, rfl⟩

theorem giveIds (h : Coupling R ctx ctx' file C) (count : Nat) :
    Couples R ctx ctx' s Same (Eval.giveIds count) (Eval.giveIds count) :=
  h.silently (fun hm => congrArg (fun m : Machine => { m with nextId := m.nextId + count }) hm)
    (fun _ => ⟨rfl, rfl, rfl, rfl, rfl, rfl⟩) fun _ => ⟨rfl, rfl, rfl, rfl, rfl, rfl⟩

theorem report (h : Coupling R ctx ctx' file C) (fault : Fault) :
    Couples R ctx ctx' s Same (Eval.report fault) (Eval.report fault) :=
  .step fun _ _ hR => h.reportMessage hR _

theorem recover (h : Coupling R ctx ctx' file C) (fault : Fault) :
    Couples R ctx ctx' s Same (Eval.recover fault) (Eval.recover fault) := by
  apply h.read
  intro m m' hm
  have hdepth : m.callDepth = m'.callDepth := hm.observe Machine.callDepth fun _ _ => rfl
  rw [hdepth]
  split
  · exact .fail fault
  · exact h.report fault

/-- What does not depend on bodies is the same in the results. -/
theorem same_bind {x : Eval α} (hx : Couples R ctx ctx' s Same x x) {γ : Type}
    {f : α → Eval β} {g : α → Eval γ} {A : Sight → β → γ → Prop}
    (hf : ∀ {t}, s ≤ t → ∀ a, Couples R ctx ctx' t A (f a) (g a)) :
    Couples R ctx ctx' s A (x >>= f) (x >>= g) :=
  hx.bind fun hst heq => heq ▸ hf hst _

/-! Statements. -/

theorem parsed {γ : Type} (result : Except SyntaxError γ) :
    Couples R ctx ctx' s Same (parsed result) (parsed result) := by
  cases result with
  | ok a => exact .pure rfl
  | error e => exact .fail _

theorem conditionHolds (h : Coupling R ctx ctx' file C) (condition : Except SyntaxError Expr) :
    Couples R ctx ctx' s Same (conditionHolds condition) (conditionHolds condition) := by
  refine same_bind (parsed condition) fun _ expr => ?_
  exact (h.evalValue expr).bind fun _ hv => .checkSame (Eval.Coupling.asBool_akin hv)

theorem expressionFlow (h : Coupling R ctx ctx' file C) (expr : Expr) :
    Couples R ctx ctx' s Flow.Akin (expressionFlow expr) (expressionFlow expr) := by
  refine (h.evalExpr expr).bind fun _ ho => ?_
  apply h.read
  intro m m' hm
  rw [Eval.voidIn?_akin hm ho]
  split
  · exact .pure rfl
  · refine (h.require ho).bind fun _ ho => ?_
    exact (h.valueOf ho).bind fun _ hv => .pure (congrArg Flow.value hv)

theorem guarded (h : Coupling R ctx ctx' file C) {x y : Eval Flow}
    (hx : Couples R ctx ctx' s Flow.Akin x y) :
    Couples R ctx ctx' s Flow.Akin (guarded x) (guarded y) := by
  refine hx.attempt.bind fun _ hpaired => ?_
  cases hpaired with
  | ok hflow => exact .pure hflow
  | error fault => exact same_bind (h.recover fault) fun _ _ => .pure rfl

theorem returned (h : Coupling R ctx ctx' file C) (expr : Option (Except SyntaxError Expr)) :
    Couples R ctx ctx' s
      (fun t back back' => back.map (Value.recast t.left) = back'.map (Value.recast t.right))
      (returned expr) (returned expr) := by
  cases expr with
  | none => exact .pure rfl
  | some expr =>
    have hvalue : Couples R ctx ctx' s Value.Akin (do Eval.evalValue (← Run.parsed expr))
        (do Eval.evalValue (← Run.parsed expr)) :=
      same_bind (parsed expr) fun _ expr => h.evalValue expr
    refine hvalue.attempt.bind fun _ hpaired => ?_
    cases hpaired with
    | ok hv => exact .pure (congrArg some hv)
    | error fault => exact same_bind (h.recover fault) fun _ _ => .pure rfl

/-- What a completed `if` says holds no bodies. -/
theorem ifFlow_akin (outcome : Option Bool) : (ifFlow outcome).Akin s (ifFlow outcome) := by
  obtain _ | _ | _ := outcome <;> rfl

theorem completeStatement (h : Coupling R ctx ctx' file C) (outcome : Option Bool) :
    Couples R ctx ctx' s
      (fun t flow flow' => flow.map (Flow.recast t.left) = flow'.map (Flow.recast t.right))
      (completeStatement base outcome) (completeStatement base outcome) := by
  refine same_bind h.scopes fun _ stack => ?_
  refine same_bind (h.updateScopes _) fun _ _ => ?_
  refine same_bind (h.setLastIf _) fun _ _ => ?_
  apply Couples.pure
  split
  · exact congrArg some (ifFlow_akin _)
  · rfl

theorem completed (h : Coupling R ctx ctx' file C) (outcome : Option Bool) {flow flow' : Flow}
    (hflow : flow.Akin s flow') :
    Couples R ctx ctx' s Flow.Akin
      (do return (← Run.completeStatement base outcome).getD flow)
      (do return (← Run.completeStatement base outcome).getD flow') := by
  refine (h.completeStatement outcome).bind fun {_ closed closed'} hst hclosed => .pure ?_
  cases closed <;> cases closed' <;> simp at hclosed
  · exact hflow.later hst
  · exact hclosed

theorem finishStatement (h : Coupling R ctx ctx' file C) {flow flow' : Flow}
    (hflow : flow.Akin s flow') :
    Couples R ctx ctx' s Flow.Akin (finishStatement base flow) (finishStatement base flow') :=
  h.completed none hflow

theorem enterIf (h : Coupling R ctx ctx' file C) (skipping : Bool)
    (condition : Except SyntaxError Expr) :
    Couples R ctx ctx' s Same (enterIf skipping (Run.conditionHolds condition))
      (enterIf skipping (Run.conditionHolds condition)) := by
  refine same_bind (h.setLastIf none) fun _ _ => ?_
  dsimp only
  split
  · exact h.updateScopes _
  · refine (h.conditionHolds condition).attempt.bind fun _ hpaired => ?_
    cases hpaired with
    | @ok holds holds' heq =>
      subst heq
      cases holds <;> exact h.updateScopes _
    | error fault => exact same_bind (h.recover fault) fun _ _ => h.updateScopes _

theorem enterElse (h : Coupling R ctx ctx' file C) (skipping : Bool) :
    Couples R ctx ctx' s Flow.Akin (enterElse skipping) (enterElse skipping) := by
  have hopen {t : Sight} (state : BlockState) : Couples R ctx ctx' t Flow.Akin
      (do
        Run.setLastIf none
        Run.updateScopes (·.push (.conditional state))
        return .elseMark)
      (do
        Run.setLastIf none
        Run.updateScopes (·.push (.conditional state))
        return .elseMark) :=
    same_bind (h.setLastIf none) fun _ _ => same_bind (h.updateScopes _) fun _ _ => .pure rfl
  apply h.read
  intro m m' hm
  have hlastIf : m.lastIf = m'.lastIf := hm.observe Machine.lastIf fun _ _ => rfl
  rw [hlastIf]
  dsimp only
  split
  · exact hopen _
  · exact same_bind (h.report _) fun _ _ => hopen _
  · exact hopen _

theorem openBlock (h : Coupling R ctx ctx' file C) :
    Couples R ctx ctx' s Same openBlock openBlock :=
  same_bind (h.setLastIf none) fun _ _ => h.updateScopes _

theorem closeBlock (h : Coupling R ctx ctx' file C) :
    Couples R ctx ctx' s Flow.Akin (closeBlock base) (closeBlock base) := by
  refine same_bind (h.updateScopes _) fun _ _ => ?_
  refine same_bind h.scopes fun _ stack => ?_
  split
  · exact same_bind (h.recover _) fun _ _ => .pure rfl
  · exact same_bind (h.updateScopes _) fun _ _ => h.completed _ (ifFlow_akin _)

theorem reject (h : Coupling R ctx ctx' file C) (skipping : Bool) (error : SyntaxError) :
    Couples R ctx ctx' s Same (reject skipping error) (reject skipping error) := by
  cases skipping with
  | true => exact .pure rfl
  | false => exact h.recover _

theorem runReturn (h : Coupling R ctx ctx' file C) (inFunction skipping : Bool)
    (expr : Option (Except SyntaxError Expr)) :
    Couples R ctx ctx' s Flow.Akin (runReturn base inFunction skipping expr)
      (runReturn base inFunction skipping expr) := by
  unfold Run.runReturn
  split
  · exact h.finishStatement rfl
  · split
    · exact same_bind (h.recover _) fun _ _ => h.finishStatement rfl
    · exact (h.returned expr).bind fun _ hback => .pure (congrArg Flow.giveBack hback)

/-! Declarations. -/

/-- The machine is read on both sides, in the file. -/
theorem stand (h : Coupling R ctx ctx' file C) {f : Machine → Eval α} {g : Machine → Eval β}
    {A : Sight → α → β → Prop}
    (hf : ∀ {m m'}, m.Akin s m' → m.file = file → Couples R ctx ctx' s A (f m) (g m')) :
    Couples R ctx ctx' s A (Eval.machine >>= f) (Eval.machine >>= g) :=
  fun held m m' hR => hf (h.same hR) (h.here hR) held m m' hR

theorem file_akin {m m' : Machine} (hm : m.Akin s m') : m.file = m'.file :=
  hm.observe Machine.file fun _ _ => rfl

theorem nextId_akin {m m' : Machine} (hm : m.Akin s m') : m.nextId = m'.nextId :=
  hm.observe Machine.nextId fun _ _ => rfl

theorem registerTemplate (h : Coupling R ctx ctx' file C) {template template' : ClassTemplate}
    (htemplate : template.Akin s template') :
    Couples R ctx ctx' s Same (registerTemplate template) (registerTemplate template') := by
  intro held m m' hR
  have hm := h.same hR
  have hclasses : m.classes.recast s.left = m'.classes.recast s.right := congrArg Machine.classes hm
  have hname : template.name = template'.name := by
    have hsame := congrArg ClassTemplate.name htemplate
    exact hsame
  have hfound : (m.classes.find? template.name).map (ClassTemplate.recast s.left) =
      (m'.classes.find? template.name).map (ClassTemplate.recast s.right) := by
    rw [← ClassTable.find?_recast, ← ClassTable.find?_recast, hclasses]
  cases hold : m.classes.find? template.name with
  | some found =>
    cases hold' : m'.classes.find? template.name with
    | none => simp [hold, hold'] at hfound
    | some found' =>
      rw [hname] at hold hold'
      rw [registerTemplate_known (hname ▸ hold), registerTemplate_known hold', hname]
      exact ⟨s, le_rfl, .error _, hR⟩
  | none =>
    cases hold' : m'.classes.find? template.name with
    | some found' => simp [hold, hold'] at hfound
    | none =>
      rw [hname] at hold'
      rw [registerTemplate_new hold, registerTemplate_new hold']
      refine ⟨s, le_rfl, .ok rfl, h.silent hR ?_ ⟨rfl, rfl, rfl, rfl, rfl, rfl⟩
        ⟨rfl, rfl, rfl, rfl, rfl, rfl⟩⟩
      change { m.recast s.left with classes := ClassTable.recast s.left (m.classes ++ [template]) } =
        { m'.recast s.right with classes := ClassTable.recast s.right (m'.classes ++ [template']) }
      unfold ClassTable.recast at hclasses ⊢
      simp only [List.map_append, List.map_cons, List.map_nil, hclasses, htemplate, hm]

theorem buildClass (h : Coupling R ctx ctx' file C) (name : String)
    {body body' : List SourceLine} (hbody : C s body body') :
    Couples R ctx ctx' s (fun t template template' => template.Akin t template' ∧
        template.methods.length = template'.methods.length)
      (buildClass name body) (buildClass name body') := by
  intro held m m' hR
  have hm := h.same hR
  have hmethods := h.methods (m.nextId + 1) hbody
  rw [buildClass_apply, buildClass_apply, h.here hR, ← file_akin hm, h.here hR, ← nextId_akin hm]
  refine ⟨s, le_rfl, .ok ⟨?_, ?_⟩, h.told hR hbody⟩
  · simp only [ClassTemplate.Akin, ClassTemplate.recast, h.fields hbody, hmethods]
  · have hlength := congrArg List.length hmethods
    simpa [Callable.recastAll] using hlength

theorem declareBody (h : Coupling R ctx ctx' file C) {header : Header}
    (hheader : ∀ name, header ≠ .classNamed name) {body body' : List SourceLine}
    (hbody : s.left file body = s.right file body') :
    Couples R ctx ctx' s Same (declareHeader header body) (declareHeader header body') := by
  apply h.stand
  intro m m' hm hfile
  have hfile' : m'.file = file := file_akin hm ▸ hfile
  cases header with
  | classNamed name => exact absurd rfl (hheader name)
  | function signature =>
    refine Couples.bind (h.define signature.name ?_) fun _ _ => h.giveIds 1
    simp only [Value.Akin, Value.recast, Atom.recast, Callable.recast, UserFunction.recast, hfile,
      hfile', hbody, nextId_akin hm]
  | procedure name =>
    refine Couples.bind (h.define name ?_) fun _ _ => h.giveIds 1
    simp only [Value.Akin, Value.recast, Atom.recast, Procedure.recast, hfile, hfile', hbody,
      nextId_akin hm]

theorem declareClass (h : Coupling R ctx ctx' file C) (name : String)
    {body body' : List SourceLine} (hbody : C s body body') :
    Couples R ctx ctx' s Same (declareHeader (.classNamed name) body)
      (declareHeader (.classNamed name) body') := by
  apply h.stand
  intro m m' hm hfile
  refine (h.buildClass name hbody).bind fun {_ template template'} hst ⟨htemplate, hlength⟩ => ?_
  rw [hlength]
  exact (h.registerTemplate htemplate).bind fun _ _ => h.giveIds _

/-! Items and lines. -/

theorem beginItem (h : Coupling R ctx ctx' file C) {item item' : Item}
    (hopen : item = .blockOpen ↔ item' = .blockOpen) :
    Couples R ctx ctx' s Same (beginItem item) (beginItem item') := by
  have hskipping {t : Sight} : Couples R ctx ctx' t Same (do return (← Run.scopes).current.skipping)
      (do return (← Run.scopes).current.skipping) :=
    same_bind h.scopes fun _ _ => .pure rfl
  have hends (item : Item) (hitem : item ≠ .blockOpen) : Run.beginItem item = (do
      Run.updateScopes (·.mapCurrent fun scope => { scope with awaitingBody := false })
      return (← Run.scopes).current.skipping) := by
    cases item <;> first | rfl | exact absurd rfl hitem
  by_cases hitem : item = .blockOpen
  · rw [hopen.mp hitem, hitem]
    exact hskipping
  · rw [hends item hitem, hends item' fun hitem' => hitem (hopen.mpr hitem')]
    exact same_bind (h.updateScopes _) fun _ _ => hskipping

theorem runDeclaration (h : Coupling R ctx ctx' file C) (skipping : Bool) (header : Header)
    {body body' : List SourceLine} (hdeclare : Couples R ctx ctx' s Same (declareHeader header body)
      (declareHeader header body')) :
    Couples R ctx ctx' s Flow.Akin (runDeclaration base skipping header (.ok body))
      (runDeclaration base skipping header (.ok body')) := by
  unfold Run.runDeclaration
  dsimp only
  split
  · exact h.finishStatement rfl
  · have hflow : Couples R ctx ctx' s Flow.Akin (do declareHeader header body; return .nothing)
        (do declareHeader header body'; return .nothing) := hdeclare.bind fun _ _ => .pure rfl
    exact (h.guarded hflow).bind fun _ hflow => h.finishStatement hflow

theorem item_later (h : Coupling R ctx ctx' file C) {t : Sight} (hst : s ≤ t) {item item' : Item}
    (hitem : Item.Akin s file (C s) item item') : Item.Akin t file (C t) item item' := by
  cases hitem with
  | same item hitem => exact .same item hitem
  | body header hheader hbody => exact .body header hheader (Sight.body_later hbody hst)
  | classBody name hbody => exact .classBody name (h.later hst hbody)

theorem declaration (h : Coupling R ctx ctx' file C) {inFunction : Bool} (header : Header)
    {body body' : List SourceLine} (hdeclare : ∀ {t}, s ≤ t →
      Couples R ctx ctx' t Same (declareHeader header body) (declareHeader header body')) :
    Couples R ctx ctx' s Flow.Akin (runItem base inFunction (.declaration header (.ok body)))
      (runItem base inFunction (.declaration header (.ok body'))) := by
  have hbegin : Couples R ctx ctx' s Same (Run.beginItem (.declaration header (.ok body)))
      (Run.beginItem (.declaration header (.ok body'))) := h.beginItem (by simp)
  refine hbegin.bind fun {_ skipping skipping'} hst heq => ?_
  subst heq
  exact h.runDeclaration skipping header (hdeclare hst)

theorem runItem (h : Coupling R ctx ctx' file C) (inFunction : Bool) {item item' : Item}
    (hitem : Item.Akin s file (C s) item item') :
    Couples R ctx ctx' s Flow.Akin (runItem base inFunction item)
      (runItem base inFunction item') := by
  cases hitem with
  | body header hheader hbody =>
    exact h.declaration header fun hst => h.declareBody hheader (Sight.body_later hbody hst)
  | classBody name hbody =>
    exact h.declaration (.classNamed name) fun hst => h.declareClass name (h.later hst hbody)
  | same _ hitem =>
    refine same_bind (h.beginItem Iff.rfl) fun _ skipping => ?_
    cases item with
    | condition expr => exact same_bind (h.enterIf skipping expr) fun _ _ => .pure rfl
    | elseMark => exact h.enterElse skipping
    | blockOpen => exact same_bind h.openBlock fun _ _ => .pure rfl
    | blockClose => exact h.closeBlock
    | giveBack expr => exact h.runReturn inFunction skipping expr
    | expression expr =>
      dsimp only
      split
      · exact h.finishStatement rfl
      · exact (h.guarded (h.expressionFlow expr)).bind fun _ hflow => h.finishStatement hflow
    | declaration header body =>
      cases body with
      | error e => exact same_bind (h.reject skipping e) fun _ _ => h.finishStatement rfl
      | ok body => exact absurd rfl (hitem header body)
    | rejected error => exact same_bind (h.reject skipping error) fun _ _ => h.finishStatement rfl
    | malformed error => exact same_bind (h.reject skipping error) fun _ _ => .pure rfl

/-- Two flows that are the same but for bodies: both end the line, or neither does. -/
theorem flow_cases {flow flow' : Flow} (hflow : flow.Akin s flow') :
    (∃ value value', flow = .giveBack value ∧ flow' = .giveBack value') ∨
      (∀ value, flow ≠ .giveBack value) ∧ ∀ value, flow' ≠ .giveBack value := by
  cases flow <;> cases flow' <;> simp [Flow.Akin, Flow.recast] at hflow ⊢

/-- What follows a flow unless it ends the line. -/
theorem unless_back {x y : Eval Flow} {f g : Flow → Eval Flow}
    (hx : Couples R ctx ctx' s Flow.Akin x y)
    (hf : ∀ {t flow flow'}, s ≤ t → flow.Akin t flow' →
      Couples R ctx ctx' t Flow.Akin (f flow) (g flow')) :
    Couples R ctx ctx' s Flow.Akin
      (do
        match ← x with
        | .giveBack value => return .giveBack value
        | flow => f flow)
      (do
        match ← y with
        | .giveBack value => return .giveBack value
        | flow => g flow) := by
  refine hx.bind fun {_ flow flow'} hst hflow => ?_
  rcases flow_cases hflow with ⟨value, value', rfl, rfl⟩ | ⟨hflow', hflow''⟩
  · exact .pure hflow
  · cases flow <;> cases flow' <;> first | exact hf hst hflow | exact absurd rfl (hflow' _) |
      exact absurd rfl (hflow'' _)

theorem runItems (h : Coupling R ctx ctx' file C) (inFunction : Bool) {items items' : List Item}
    (hitems : List.Forall₂ (Item.Akin s file (C s)) items items')
    {flow flow' : Flow} (hflow : flow.Akin s flow') :
    Couples R ctx ctx' s Flow.Akin (runItems base inFunction flow items)
      (runItems base inFunction flow' items') := by
  induction items generalizing items' flow flow' s with
  | nil =>
    cases hitems
    exact .pure hflow
  | cons item items ih =>
    obtain _ | ⟨hitem, hitems⟩ := hitems
    refine unless_back (h.runItem inFunction hitem) fun hst hflow => ?_
    exact ih (hitems.imp fun _ _ hitem => h.item_later hst hitem) hflow

theorem runLine (h : Coupling R ctx ctx' file C) (inFunction : Bool) {items items' : List Item}
    (hitems : List.Forall₂ (Item.Akin s file (C s)) items items') :
    Couples R ctx ctx' s Flow.Akin (runLine base inFunction items)
      (runLine base inFunction items') := by
  have hcount {t : Sight} {m m' : Machine} (hm : m.Akin t m') : m.errorCount = m'.errorCount :=
    hm.observe Machine.errorCount fun _ _ => rfl
  apply h.read
  intro m m' hm
  refine unless_back (h.runItems inFunction hitems rfl) fun {_ flow flow'} _ hflow => ?_
  apply h.read
  intro n n' hn
  rw [hcount hm, hcount hn]
  split
  · exact .pure rfl
  · exact .pure hflow

end Coupling

end Run

end BuildScript
