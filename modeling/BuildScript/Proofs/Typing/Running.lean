import BuildScript.Proofs.Typing.Calls

/-!
Running lines on typed machines. Items open and close scopes, which adds no names; what they declare
are functions, procedures and classes, of which a class only comes after those there are. So running
lines is safe where the running of the bodies in them is, and with that it is safe at any depth.
-/

namespace BuildScript

open Eval (Safe Secures IsValue HasValue)

namespace Run

variable {α : Type} {ctx : Context} {m : Machine} {base : Nat}

/-- What an evaluation gives that has no value to be right about. -/
abbrev Anything {α : Type} (_ : Machine) (_ : α) : Prop := True

theorem updateScopes_secures {f : ScopeStack → ScopeStack}
    (h : (f m.env.scopes).slots ⊆ m.env.scopes.slots) : Secures ctx m (updateScopes f) Anything :=
  .aside ⟨rfl, rfl, h⟩ trivial

theorem setLastIf_secures (outcome : Option Bool) : Secures ctx m (setLastIf outcome) Anything :=
  .aside (.of_env rfl rfl) trivial

theorem report_secures (fault : Fault) : Secures ctx m (Eval.report fault) Anything :=
  .aside (.of_env rfl rfl) trivial

theorem recover_secures (fault : Fault) : Secures ctx m (Eval.recover fault) Anything := by
  refine .read fun _ => ?_
  split
  · exact .fail fault
  · exact report_secures fault

theorem scopes_secures : Secures ctx m scopes fun m' stack => m' = m ∧ stack = m.env.scopes :=
  .read fun _ => .pure ⟨rfl, rfl⟩

theorem ifFlow_typed (outcome : Option Bool) : (ifFlow outcome).Typed m := by
  rcases outcome with _ | _ | _ <;> trivial

/-- Dropping scopes drops names. -/
theorem slots_drop (stack : ScopeStack) (count : Nat) :
    ScopeStack.slots { stack with inner := stack.inner.drop count } ⊆ stack.slots := by
  intro slot hslot
  obtain ⟨binding, hbinding, rfl⟩ := List.mem_map.mp hslot
  refine List.mem_map_of_mem ?_
  rcases List.mem_append.mp hbinding with hinner | hglobal
  · obtain ⟨scope, hscope, hmem⟩ := List.mem_flatMap.mp hinner
    exact List.mem_append_left _ (List.mem_flatMap.mpr ⟨scope, List.mem_of_mem_drop hscope, hmem⟩)
  · exact List.mem_append_right _ hglobal

/-- Opening a scope that binds nothing adds no name. -/
theorem slots_push (stack : ScopeStack) {scope : Scope} (hempty : scope.bindings = []) :
    (stack.push scope).slots ⊆ stack.slots := fun _ hslot =>
  (Environment.Trims.push stack hempty : Environment.Trims 0 _ _).slots hslot

theorem completeStatement_secures (outcome : Option Bool) :
    Secures ctx m (completeStatement base outcome)
      fun m' flow => ∀ found, flow = some found → found.Typed m' := by
  refine .bind scopes_secures ?_
  rintro _ m₁ - - ⟨rfl, rfl⟩
  dsimp only
  refine .bind (updateScopes_secures (slots_drop _ _)) fun _ m₂ _ _ _ => ?_
  refine .bind (setLastIf_secures _) fun _ m₃ _ _ _ => .pure fun found heq => ?_
  split at heq
  · cases heq
    exact ifFlow_typed _
  · cases heq

theorem finishStatement_secures {flow : Flow} (hflow : flow.Typed m) :
    Secures ctx m (finishStatement base flow) fun m' flow => flow.Typed m' := by
  refine .bind (completeStatement_secures none) fun found m₁ _ hsettles hfound => .pure ?_
  cases found with
  | none => exact Flow.Typed.mono hsettles hflow
  | some found => exact hfound found rfl

theorem enterIf_secures (skipping : Bool) {condition : Eval Bool}
    (hcondition : ∀ m, Secures ctx m condition Anything) :
    Secures ctx m (enterIf skipping condition) Anything := by
  have hpush (m : Machine) (state : BlockState) :
      Secures ctx m (updateScopes (·.push (.conditional state))) Anything :=
    updateScopes_secures (slots_push _ rfl)
  refine .bind (setLastIf_secures none) fun _ m₁ _ _ _ => ?_
  dsimp only
  split
  · exact hpush m₁ _
  · refine .bind (.attempt (hcondition m₁)) fun result m₂ _ _ _ => ?_
    split
    · exact hpush m₂ _
    · exact hpush m₂ _
    · exact .bind (recover_secures _) fun _ m₃ _ _ _ => hpush m₃ _

theorem enterElse_secures (skipping : Bool) :
    Secures ctx m (enterElse skipping) fun m' flow => flow.Typed m' := by
  have hpush (m : Machine) (state : BlockState) : Secures ctx m (do
      Run.setLastIf none
      updateScopes (·.push (.conditional state))
      return Flow.elseMark : Eval Flow) fun m' flow => flow.Typed m' :=
    .bind (setLastIf_secures none) fun _ _ _ _ _ =>
      .bind (updateScopes_secures (slots_push _ rfl)) fun _ _ _ _ _ => .pure trivial
  refine .read fun _ => ?_
  dsimp only
  split
  · exact hpush m _
  · exact .bind (report_secures _) fun _ m₁ _ _ _ => hpush m₁ _
  · exact hpush m _

theorem slots_mapCurrent (stack : ScopeStack) {f : Scope → Scope}
    (hf : ∀ scope, (f scope).bindings = scope.bindings) :
    (stack.mapCurrent f).slots ⊆ stack.slots := fun _ hslot =>
  (Environment.Trims.mapCurrent stack hf : Environment.Trims 0 _ _).slots hslot

theorem openBlock_secures : Secures ctx m openBlock Anything := by
  refine .bind (setLastIf_secures none) fun _ m₁ _ _ _ => updateScopes_secures ?_
  split
  · exact slots_mapCurrent _ fun _ => rfl
  · exact slots_push _ rfl

theorem closeBlock_secures : Secures ctx m (closeBlock base) fun m' flow => flow.Typed m' := by
  refine .bind (updateScopes_secures (slots_drop _ _)) fun _ m₁ _ _ _ => ?_
  refine .bind scopes_secures ?_
  rintro _ m₂ - - ⟨rfl, rfl⟩
  dsimp only
  split
  · exact .bind (recover_secures _) fun _ _ _ _ _ => .pure trivial
  · have hpop : (m₂.env.scopes.pop.2).slots ⊆ m₂.env.scopes.slots := by
      obtain ⟨inner, global⟩ := m₂.env.scopes
      cases inner with
      | nil => exact List.Subset.refl _
      | cons scope rest => exact slots_drop ⟨scope :: rest, global⟩ 1
    refine .bind (updateScopes_secures hpop) fun _ m₃ _ _ _ => ?_
    refine .bind (completeStatement_secures _) fun found m₄ _ _ hfound => .pure ?_
    cases found with
    | none => exact ifFlow_typed _
    | some found => exact hfound found rfl

theorem beginItem_secures (item : Item) : Secures ctx m (beginItem item) Anything := by
  have hskipping (m : Machine) : Secures ctx m (do
      return (← scopes).current.skipping : Eval Bool) Anything :=
    .bind scopes_secures fun _ _ _ _ _ => .pure trivial
  cases item with
  | blockOpen => exact hskipping m
  | _ => exact .bind (updateScopes_secures (slots_mapCurrent _ fun _ => rfl)) fun _ m₁ _ _ _ =>
      hskipping m₁

theorem parsed_secures {α : Type} (result : Except SyntaxError α) :
    Secures ctx m (parsed result) Anything := by
  cases result with
  | ok a => exact .pure trivial
  | error e => exact .fail _

theorem evalValue_secures (h : ctx.Secures) (expr : Expr) :
    Secures ctx m (Eval.evalValue expr) HasValue := (Eval.evalExpr_gives h expr).value m

theorem conditionHolds_secures (h : ctx.Secures) (condition : Except SyntaxError Expr) :
    Secures ctx m (conditionHolds condition) Anything :=
  .bind (parsed_secures condition) fun expr _ _ _ _ =>
    .bind (evalValue_secures h expr) fun _ _ _ _ _ => .ofExcept fun _ _ => trivial

theorem expressionFlow_secures (h : ctx.Secures) (expr : Expr) :
    Secures ctx m (expressionFlow expr) fun m' flow => flow.Typed m' := by
  refine .bind (Eval.evalExpr_gives h expr m) fun operand m₁ _ _ hoperand => .read fun _ => ?_
  split
  · exact .pure trivial
  · refine .bind (Eval.require_secures operand) ?_
    rintro _ m₂ - - ⟨rfl, rfl, -⟩
    exact .bind (Eval.valueOf_secures hoperand) fun value _ _ _ hvalue => .pure hvalue.1

theorem guarded_secures {flow : Eval Flow}
    (hflow : Secures ctx m flow fun m' flow => flow.Typed m') :
    Secures ctx m (guarded flow) fun m' flow => flow.Typed m' := by
  refine .bind (.attempt hflow) fun result m₁ _ _ hresult => ?_
  split
  · exact .pure (hresult _ rfl)
  · exact .bind (recover_secures _) fun _ _ _ _ _ => .pure trivial

theorem giveIds_secures (count : Nat) : Secures ctx m (Eval.giveIds count) Anything :=
  .aside (.of_env rfl rfl) trivial

theorem addEntry_secures (template : ClassTemplate) (entry : ClassEntry) :
    Secures ctx m (addEntry template entry) Anything := by
  refine .bind (Q := Anything) (.aside (.of_env rfl rfl) trivial) fun _ m₁ _ _ _ => ?_
  split
  · exact .bind (recover_secures _) fun _ _ _ _ _ => .pure trivial
  · exact .pure trivial
  · exact .read fun _ => .pure trivial

theorem addEntries_secures (template : ClassTemplate) (entries : List ClassEntry) :
    Secures ctx m (addEntries template entries) Anything := by
  induction entries generalizing m template with
  | nil => exact .pure trivial
  | cons entry rest ih => exact .bind (addEntry_secures template entry) fun _ _ _ _ _ => ih _

theorem buildClass_secures (name : String) (body : List Text.SourceLine) :
    Secures ctx m (buildClass name body) Anything := by
  refine .read fun _ => .bind (addEntries_secures _ _) fun template m₂ _ _ _ => ?_
  exact .bind (Q := Anything) (.aside (.of_env rfl rfl) trivial) fun _ _ _ _ _ => .pure trivial

/-- A class comes after those there are, so each of them is found as before. -/
theorem registerTemplate_secures (template : ClassTemplate) :
    Secures ctx m (registerTemplate template) Anything := by
  refine .read fun hm => .check fun registered hregister => ?_
  unfold Machine.registerClass at hregister
  split at hregister
  · cases hregister
  · cases hregister
    have hclasses : m.classes <+: m.classes ++ [template] := List.prefix_append _ _
    exact .store (fun _ => ⟨⟨hm.memory.mono hclasses, hm.scopes⟩, hclasses, .refl _⟩) trivial

theorem declareHeader_secures (header : Header) (body : List Text.SourceLine) :
    Secures ctx m (declareHeader header body) Anything := by
  have hdefine (m : Machine) (name : String) {atom : Atom} (hatom : atom.receiver? = none) :
      Secures ctx m (do
        let _ ← Eval.define name (.atom atom)
        Eval.giveIds 1) Anything :=
    .bind (Eval.define_secures name (Eval.atom_value hatom)) fun _ _ _ _ _ => giveIds_secures 1
  refine .read fun _ => ?_
  cases header with
  | function signature => exact hdefine m _ rfl
  | procedure name => exact hdefine m _ rfl
  | classNamed name =>
    exact .bind (buildClass_secures name body) fun template _ _ _ _ =>
      .bind (registerTemplate_secures template) fun _ _ _ _ _ => giveIds_secures _

theorem returned_secures (h : ctx.Secures) (expr : Option (Except SyntaxError Expr)) :
    Secures ctx m (returned expr) fun m' value =>
      ∀ given, value = some given → given.Typed m'.realm := by
  cases expr with
  | none => exact .pure fun _ heq => by cases heq
  | some expr =>
    have hvalue : Secures ctx m (do Eval.evalValue (← parsed expr)) HasValue :=
      .bind (parsed_secures expr) fun expr _ _ _ _ => evalValue_secures h expr
    refine .bind (.attempt hvalue) fun result m₁ _ _ hresult => ?_
    split
    · refine .pure ?_
      rintro _ ⟨⟩
      exact (hresult _ rfl).1
    · exact .bind (recover_secures _) fun _ _ _ _ _ => .pure fun _ heq => by cases heq

theorem runReturn_secures (h : ctx.Secures) (inFunction skipping : Bool)
    (expr : Option (Except SyntaxError Expr)) :
    Secures ctx m (runReturn base inFunction skipping expr) fun m' flow => flow.Typed m' := by
  unfold runReturn
  split
  · exact finishStatement_secures trivial
  · split
    · exact .bind (recover_secures _) fun _ _ _ _ _ => finishStatement_secures trivial
    · exact .bind (returned_secures h expr) fun _ _ _ _ hvalue => .pure hvalue

theorem reject_secures (skipping : Bool) (error : SyntaxError) :
    Secures ctx m (reject skipping error) Anything := by
  unfold reject
  split
  · exact recover_secures _
  · exact .pure trivial

theorem runDeclaration_secures (skipping : Bool) (header : Header)
    (body : Except SyntaxError (List Text.SourceLine)) :
    Secures ctx m (runDeclaration base skipping header body) fun m' flow => flow.Typed m' := by
  cases body with
  | error e =>
    exact .bind (reject_secures skipping e) fun _ _ _ _ _ => finishStatement_secures trivial
  | ok body =>
    unfold runDeclaration
    dsimp only
    split
    · exact finishStatement_secures trivial
    · refine .bind (guarded_secures ?_) fun flow _ _ _ hflow => finishStatement_secures hflow
      exact .bind (declareHeader_secures header body) fun _ _ _ _ _ => .pure trivial

/-- Every item is run safely. -/
theorem runItem_secures (h : ctx.Secures) (base : Nat) (inFunction : Bool) (item : Item) :
    Secures ctx m (runItem base inFunction item) fun m' flow => flow.Typed m' := by
  refine .bind (beginItem_secures item) fun skipping m₁ _ _ _ => ?_
  cases item with
  | condition expr =>
    exact .bind (enterIf_secures skipping fun _ => conditionHolds_secures h expr)
      fun _ _ _ _ _ => .pure trivial
  | elseMark => exact enterElse_secures skipping
  | blockOpen => exact .bind openBlock_secures fun _ _ _ _ _ => .pure trivial
  | blockClose => exact closeBlock_secures
  | giveBack expr => exact runReturn_secures h inFunction skipping expr
  | expression expr =>
    dsimp only
    split
    · exact finishStatement_secures trivial
    · exact .bind (guarded_secures (expressionFlow_secures h expr)) fun flow _ _ _ hflow =>
        finishStatement_secures hflow
  | declaration header body => exact runDeclaration_secures skipping header body
  | rejected error =>
    exact .bind (reject_secures skipping error) fun _ _ _ _ _ => finishStatement_secures trivial
  | malformed error => exact .bind (reject_secures skipping error) fun _ _ _ _ _ => .pure trivial

theorem runItems_secures (h : ctx.Secures) (inFunction : Bool) {flow : Flow} (hflow : flow.Typed m)
    (items : List Item) :
    Secures ctx m (runItems base inFunction flow items) fun m' flow => flow.Typed m' := by
  induction items generalizing m flow with
  | nil => exact .pure hflow
  | cons item rest ih =>
    refine .bind (runItem_secures h base inFunction item) fun flow m₁ _ _ hflow => ?_
    split
    · exact .pure hflow
    · exact ih hflow

theorem runLine_secures (h : ctx.Secures) (inFunction : Bool) (items : List Item) :
    Secures ctx m (runLine base inFunction items) fun m' flow => flow.Typed m' := by
  have hnothing : Flow.nothing.Typed m := trivial
  refine .read fun _ => .bind (runItems_secures h inFunction hnothing items)
    fun flow m₁ _ _ hflow => ?_
  split
  · exact .pure hflow
  · refine .read fun _ => ?_
    split
    · exact .pure trivial
    · exact .pure hflow

theorem runScript_secures (h : ctx.Secures) (inFunction : Bool) {flow : Flow} (hflow : flow.Typed m)
    (script : Script) :
    Secures ctx m (runScript base inFunction flow script) fun m' flow => flow.Typed m' := by
  induction script generalizing m flow with
  | nil => exact .pure hflow
  | cons line rest ih =>
    refine .bind (Q := Anything) (.aside (.of_env rfl rfl) trivial) fun _ m₁ _ _ _ => ?_
    split
    · exact .bind (report_secures _) fun _ _ _ _ _ => ih trivial
    · refine .bind (runLine_secures h inFunction _) fun flow m₂ _ _ hflow => ?_
      split
      · exact .pure hflow
      · exact ih hflow

/-- Lines are run safely to their end. -/
theorem runLines_secures (h : ctx.Secures) (lines : List Text.SourceLine) (inFunction : Bool) :
    Secures ctx m (runLines lines inFunction) fun m' flow => flow.Typed m' := by
  intro hm held
  have hnothing : Flow.nothing.Typed m := trivial
  have hscript := @runScript_secures ctx m m.env.scopes.depth h inFunction _ hnothing
    (.ofLines lines) hm held
  rw [runLines_apply]
  dsimp only
  generalize runScript m.env.scopes.depth inFunction .nothing (.ofLines lines) _ m = run at hscript
  have hended : run.2.Aside
      ((ended m.env.scopes.depth run).mapScopes (·.truncate m.env.scopes.depth)) := by
    have hreported : (ended m.env.scopes.depth run).env = run.2.env ∧
        (ended m.env.scopes.depth run).classes = run.2.classes := by
      unfold ended
      split
      · exact ⟨rfl, rfl⟩
      · exact ⟨rfl, rfl⟩
      · split <;> exact ⟨rfl, rfl⟩
    obtain ⟨henv, hclasses⟩ := hreported
    refine ⟨congrArg (·.memory) henv, hclasses, ?_⟩
    show (ScopeStack.truncate (ended _ run).env.scopes _).slots ⊆ _
    rw [henv]
    exact slots_drop _ _
  exact ⟨hended.typed hscript.typed, hscript.settles.trans hended.settles, fun flow heq =>
    Flow.Typed.mono hended.settles (hscript.result flow heq)⟩

end Run

/-- Without an embedding program, bodies and files are run safely however deep they nest. -/
theorem Session.context_secures (budget : Nat) (held : List Anchor) :
    (context .none budget held).Secures := by
  induction budget generalizing held with
  | zero =>
    exact ⟨fun _ _ _ m hm => ⟨hm, .refl m, fun _ heq => by cases heq⟩,
      fun _ _ _ m hm => ⟨hm, .refl m, fun _ heq => by cases heq⟩⟩
  | succ budget ih =>
    refine ⟨fun held lines inFunction m hm => ?_, fun _ _ _ m hm => ⟨hm, .refl m, fun _ heq => ?_⟩⟩
    · have hrun := Run.runLines_secures (ih held) lines inFunction hm held
      rwa [context_held] at hrun
    · cases heq
      exact Eval.atom_value rfl

/-- What a run in one of these contexts led to. -/
theorem Eval.Secures.of_run {α : Type} {m m' : Machine} {x : Eval α} {Q : Machine → α → Prop}
    {budget : Nat} {held : List Anchor} {result : Except Fault α}
    (h : Secures (Session.context .none budget held) m x Q) (hm : m.Typed)
    (hrun : x (Session.context .none budget held) m = (result, m')) : Safe m Q (result, m') := by
  have hsafe := h hm held
  rwa [Session.context_held, hrun] at hsafe

end BuildScript
