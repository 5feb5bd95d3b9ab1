import BuildScript.Proofs.Run.Recovery
import BuildScript.Proofs.Run.Unwinding
import BuildScript.Proofs.Scopes.Kinds

/-!
What an item makes of the scopes. If its evaluations leave them as they were, an item opens and closes
what its outline says and leaves the bindings of other scopes than the innermost alone. An item that a
fault unwinds ends nothing, like a malformed one.
-/

namespace BuildScript

open Eval (Keeps)
open Item (Outline)
open Machine (Restores)

/-- What the item evaluates when its turn comes, if anything, leaves the scopes and the depths as they
were. -/
def Item.Gentle (ctx : Context) (m : Machine) : Item → Prop
  | .expression expr => m.env.scopes.current.skipping = false →
    let start := m.mapScopes (·.begun)
    start.Restores (Run.expressionFlow expr ctx start).2
  | .condition test => m.env.scopes.current.skipping = false →
    let start := { m.mapScopes (·.begun) with lastIf := none }
    start.Restores (Run.conditionHolds test ctx start).2
  | _ => True

/-- Where calls restore the surroundings of the script, all items are gentle. -/
theorem Item.gentle {ctx : Context} (h : ctx.Restores) (item : Item) (m : Machine) :
    item.Gentle ctx m := by
  have hstatements := Run.Statements.of_steps (Eval.undisturbed_effects h).steps
  cases item with
  | expression expr =>
    exact fun _ => ((hstatements.expressionFlow expr).apply (m.mapScopes (·.begun))).toRestores
  | condition test =>
    exact fun _ => ((hstatements.conditionHolds test).apply
      { m.mapScopes (·.begun) with lastIf := none }).toRestores
  | _ => exact trivial

namespace Run

variable {base : Nat} {ctx : Context} {m after : Machine} {flow : Flow} {fault : Fault}

/-- What an item makes of the scopes above the first `base`, up to bindings. -/
inductive Moves (base : Nat) (a : ScopeStack) : Outline → ScopeStack → Prop
  | condition {b : ScopeStack} (h : a.begun.Within b) (state : BlockState) :
    Moves base a .condition (b.push (.conditional state))
  | elseMark (state : BlockState) : Moves base a .elseMark (a.begun.push (.conditional state))
  | blockOpen : Moves base a .blockOpen a.opened
  | blockClose {b : ScopeStack} (hb : b = a.begun.without (openSingles base a.begun.inner))
    (hopen : base < b.depth) :
    Moves base a .blockClose (b.pop.2.without (openSingles base b.pop.2.inner))
  | unmatched {b : ScopeStack} (hb : b = a.begun.without (openSingles base a.begun.inner))
    (hclosed : b.depth ≤ base) : Moves base a .blockClose b
  | statement {b : ScopeStack} (h : a.begun.Within b) :
    Moves base a .statement (b.without (openSingles base b.inner))
  | malformed {b : ScopeStack} (h : a.begun.Within b) : Moves base a .malformed b

/-- An item moves the scopes and leaves the depths as they were. -/
structure Moved (base : Nat) (outline : Outline) (m after : Machine) : Prop where
  callDepth : after.callDepth = m.callDepth
  includeDepth : after.includeDepth = m.includeDepth
  scopes : Moves base m.env.scopes outline after.env.scopes

/-- The end of a statement closes bodies and settles the last `if`. -/
theorem finished_scopes (outcome : Option Bool) (m : Machine) :
    (Program.finished base outcome m).env.scopes =
      m.env.scopes.without (openSingles base m.env.scopes.inner) := by
  have hclosed := @closeSingles_closed base outcome m.env.scopes.inner 0
  rw [Nat.zero_add] at hclosed
  rw [← hclosed]
  rfl

theorem finished_moved (h : (m.mapScopes (·.begun)).Restores after) (outcome : Option Bool) :
    Moved base .statement m (Program.finished base outcome after) := by
  refine ⟨h.callDepth, h.includeDepth, ?_⟩
  rw [finished_scopes]
  exact .statement h.scopes

theorem afterClose_moved (m : Machine) :
    Moved base .blockClose m (Program.afterClose base (m.mapScopes (·.begun))) := by
  unfold Program.afterClose
  dsimp only
  split
  · rename_i hclosed
    exact ⟨rfl, rfl, .unmatched rfl hclosed⟩
  · rename_i hopen
    refine ⟨rfl, rfl, ?_⟩
    rw [finished_scopes]
    exact .blockClose rfl (Nat.lt_of_not_le hopen)

theorem passedOver_moved (outline : Outline) (m : Machine) :
    Moved base outline m (Program.passedOver base outline m) := by
  cases outline with
  | condition => exact ⟨rfl, rfl, .condition (.refl _) .skippedIf⟩
  | elseMark => exact ⟨rfl, rfl, .elseMark .skippedElse⟩
  | blockOpen => exact ⟨rfl, rfl, .blockOpen⟩
  | blockClose => exact afterClose_moved m
  | statement => exact finished_moved (Restores.chains.refl _) none
  | malformed => exact ⟨rfl, rfl, .malformed (.refl _)⟩

/-- How an item ends that moves the scopes. -/
inductive Ends (base : Nat) (outline : Outline) (m : Machine) : Except Fault Flow × Machine → Prop
  | moved {flow : Flow} {after : Machine} (hflow : flow.returned? = none)
    (h : Moved base outline m after) : Ends base outline m (.ok flow, after)
  /-- Faults unwind calls only. -/
  | unwound {fault : Fault} {after : Machine} (h : Moved base .malformed m after)
    (hinside : 0 < m.callDepth) : Ends base outline m (.error fault, after)

theorem report_restores (m : Machine) (fault : Fault) : m.Restores (m.report fault) :=
  ⟨rfl, rfl, .refl _⟩

/-- A syntax error never unwinds a call. -/
theorem reject_apply (e : SyntaxError) (m : Machine) :
    reject false e ctx m = (.ok (), m.report (.parse e)) :=
  Eval.recover_common rfl ctx _

/-- A statement ends after an evaluation that restored the scopes. -/
theorem finishStatement_ends (hflow : flow.returned? = none)
    (hrestores : (m.mapScopes (·.begun)).Restores after) :
    Ends base .statement m (finishStatement base flow ctx after) := by
  obtain ⟨flow', hflow', heq⟩ := @Program.finishStatement_apply base ctx flow hflow after
  rw [heq]
  exact .moved hflow' (finished_moved hrestores none)

theorem rejected_ends (e : SyntaxError) :
    Ends base .statement m ((do
      reject false e
      finishStatement base .error : Eval Flow) ctx (m.mapScopes (·.begun))) := by
  rw [Eval.andThen_apply_ok (reject_apply e _)]
  exact finishStatement_ends rfl (report_restores _ _)

/-- What restores the scopes where an item has begun ends that item if a fault unwinds it. -/
theorem Ends.of_unwound {outline : Outline} {start : Machine} (hstart : start.Restores after)
    (hcall : start.callDepth = m.callDepth) (hinclude : start.includeDepth = m.includeDepth)
    (hscopes : start.env.scopes = m.env.scopes.begun) (hinside : 0 < after.callDepth) :
    Ends base outline m (.error fault, after) := by
  have hdepth := hstart.callDepth.trans hcall
  exact .unwound ⟨hdepth, hstart.includeDepth.trans hinclude, .malformed (hscopes ▸ hstart.scopes)⟩
    (hdepth ▸ hinside)

/-- A failed statement reports its fault, or that unwinds a call. -/
theorem recover_cases (fault : Fault) (m : Machine) :
    Eval.recover fault ctx m = (.ok (), m.report fault) ∨
      Eval.recover fault ctx m = (.error fault, m) ∧ 0 < m.callDepth := by
  rw [Eval.recover_apply]
  split
  · rename_i hfatal
    rw [Bool.and_eq_true, decide_eq_true_eq] at hfatal
    exact .inr ⟨rfl, hfatal.1⟩
  · exact .inl rfl

theorem guarded_apply (x : Eval Flow) (m : Machine) :
    let ran := x ctx m
    (∃ flow left, (ran = (.ok flow, left) ∨
        ∃ fault, flow = .error ∧ left = ran.2.report fault) ∧
      guarded x ctx m = (.ok flow, left)) ∨
    ∃ fault, guarded x ctx m = (.error fault, ran.2) ∧ 0 < ran.2.callDepth := by
  intro ran
  cases hx : x ctx m with
  | mk result between =>
    have hran : ran = (result, between) := hx
    rw [hran]
    cases result with
    | ok flow =>
      refine .inl ⟨flow, between, .inl rfl, ?_⟩
      unfold guarded
      rw [Eval.andThen_apply, Eval.attempt_apply, hx]
      rfl
    | error fault =>
      rw [guarded_error hx]
      rcases @recover_cases ctx fault between with hrecover | ⟨hrecover, hinside⟩
      · exact .inl ⟨.error, _, .inr ⟨fault, rfl, rfl⟩, Eval.andThen_apply_ok hrecover⟩
      · exact .inr ⟨fault, Eval.andThen_apply_error hrecover, hinside⟩

/-- A guarded statement that restores the scopes does so with its report, too. -/
theorem guarded_restores {x : Eval Flow} (h : m.Restores (x ctx m).2)
    (hrun : guarded x ctx m = (.ok flow, after)) : m.Restores after := by
  rcases @guarded_apply ctx x m with ⟨flow', left, hleft, hguarded⟩ | ⟨fault, hguarded, -⟩
  · rw [hguarded] at hrun
    cases hrun
    rcases hleft with hran | ⟨fault, -, rfl⟩
    · rw [hran] at h
      exact h
    · exact Restores.chains.trans h (report_restores _ fault)
  · rw [hguarded] at hrun
    cases hrun

/-- A guarded statement that restores the scopes ends like all others, unless a fault unwinds it. -/
theorem guarded_ends {x : Eval Flow}
    (hrestores : (m.mapScopes (·.begun)).Restores (x ctx (m.mapScopes (·.begun))).2)
    (hreturned : ∀ flow left, x ctx (m.mapScopes (·.begun)) = (.ok flow, left) →
      flow.returned? = none) :
    Ends base .statement m ((guarded x >>= finishStatement base) ctx (m.mapScopes (·.begun))) := by
  rcases @guarded_apply ctx x (m.mapScopes (·.begun)) with
    ⟨flow, left, hleft, hguarded⟩ | ⟨fault, hguarded, hinside⟩
  · rw [Eval.andThen_apply_ok hguarded]
    have hflow : flow.returned? = none := by
      rcases hleft with hran | ⟨-, rfl, -⟩
      · exact hreturned flow left hran
      · rfl
    exact finishStatement_ends hflow (guarded_restores hrestores hguarded)
  · rw [Eval.andThen_apply_error hguarded]
    exact .of_unwound hrestores rfl rfl rfl hinside

theorem addEntries_restores (template : ClassTemplate) (entries : List ClassEntry) :
    Keeps Restores ctx (addEntries template entries) := by
  have hline (line : Nat) : Keeps Restores ctx (Eval.update fun m => { m with line }) :=
    Restores.chains.update fun m => ⟨rfl, rfl, .refl _⟩
  have hreport (fault : Fault) : Keeps Restores ctx (Eval.report fault) :=
    Restores.chains.update fun m => ⟨rfl, rfl, .refl _⟩
  induction entries generalizing template with
  | nil => exact Restores.chains.pure template
  | cons entry rest ih =>
    refine Restores.chains.bind (Restores.chains.bind (hline _) fun _ => ?_) ih
    split
    · exact Restores.chains.bind (Restores.chains.composes.recover hreport _) fun _ =>
        Restores.chains.pure _
    · exact Restores.chains.pure _
    · exact Restores.chains.bind Restores.chains.machine fun _ => Restores.chains.pure _

/-- A declaration adds names and classes only. -/
theorem declareHeader_restores (header : Header) (body : List Text.SourceLine) :
    Keeps Restores ctx (declareHeader header body) := by
  have hgive (count : Nat) : Keeps Restores ctx (Eval.giveIds count) :=
    Restores.chains.update fun m => ⟨rfl, rfl, .refl _⟩
  refine Restores.chains.bind Restores.chains.machine fun m => ?_
  cases header with
  | function signature =>
    exact Restores.chains.bind (Eval.define_restores _ _) fun _ => hgive 1
  | procedure name =>
    exact Restores.chains.bind (Eval.define_restores _ _) fun _ => hgive 1
  | classNamed name =>
    have hbuild : Keeps Restores ctx (buildClass name body) :=
      Restores.chains.bind Restores.chains.machine fun m =>
        Restores.chains.bind (addEntries_restores _ _) fun template =>
          Restores.chains.bind (Restores.chains.update fun m => ⟨rfl, rfl, .refl _⟩) fun _ =>
            Restores.chains.pure _
    refine Restores.chains.bind hbuild fun template => ?_
    refine Restores.chains.bind ?_ fun _ => hgive _
    intro held m
    cases hfind : m.classes.find? template.name with
    | none =>
      rw [registerTemplate_new hfind]
      exact ⟨rfl, rfl, .refl _⟩
    | some found =>
      rw [registerTemplate_known hfind]
      exact Restores.chains.refl m

theorem runDeclaration_ends (header : Header) (body : Except SyntaxError (List Text.SourceLine)) :
    Ends base .statement m (runDeclaration base false header body ctx (m.mapScopes (·.begun))) := by
  cases body with
  | error e => exact rejected_ends e
  | ok body =>
    have hdeclares : Keeps Restores ctx (do
        declareHeader header body
        return Flow.nothing : Eval Flow) :=
      Restores.chains.bind (declareHeader_restores header body) fun _ => Restores.chains.pure _
    refine guarded_ends (hdeclares.apply _) fun flow left hdeclared => ?_
    obtain ⟨_, _, -, hrest⟩ := Eval.andThen_ok hdeclared
    cases hrest
    rfl

/-- The body that an `if` opens, by what its condition gave. -/
def bodyState : Except Fault Bool → BlockState
  | .ok true => .ifBody
  | _ => .skippedIf

/-- An `if` opens its body where its condition left the machine, or reported why it failed, unless the
fault unwinds it. -/
theorem enterIf_apply (condition : Eval Bool) (m : Machine) :
    let tested := condition ctx { m with lastIf := none }
    (∃ left, (left = tested.2 ∨ ∃ fault, left = tested.2.report fault) ∧
      enterIf false condition ctx m =
        (.ok (), left.mapScopes (·.push (.conditional (bodyState tested.1))))) ∨
    ∃ fault, enterIf false condition ctx m = (.error fault, tested.2) ∧
      0 < tested.2.callDepth := by
  intro tested
  cases htest : condition ctx { m with lastIf := none } with
  | mk result between =>
    have htested : tested = (result, between) := htest
    rw [htested]
    cases result with
    | ok holds =>
      refine .inl ⟨between, .inl rfl, ?_⟩
      unfold enterIf
      rw [Eval.andThen_apply_ok (show setLastIf none ctx m = (.ok (), { m with lastIf := none })
        from rfl)]
      dsimp only
      rw [if_neg Bool.false_ne_true, Eval.andThen_apply, Eval.attempt_apply, htest]
      cases holds <;> rfl
    | error fault =>
      rw [enterIf_error htest]
      rcases @recover_cases ctx fault between with hrecover | ⟨hrecover, hinside⟩
      · exact .inl ⟨_, .inr ⟨fault, rfl⟩, Eval.andThen_apply_ok hrecover⟩
      · exact .inr ⟨fault, Eval.andThen_apply_error hrecover, hinside⟩

/-- An `if` opens the body of its condition, or a skipped one. -/
theorem enterIf_ends {test : Except SyntaxError Expr} (h : Item.Gentle ctx m (.condition test))
    (hlive : m.env.scopes.current.skipping = false) :
    Ends base .condition m ((do
      enterIf false (conditionHolds test)
      return Flow.nothing : Eval Flow) ctx (m.mapScopes (·.begun))) := by
  have hrestores := h hlive
  rcases @enterIf_apply ctx (conditionHolds test) (m.mapScopes (·.begun)) with
    ⟨left, hleft, henter⟩ | ⟨fault, henter, hinside⟩
  · rw [Eval.andThen_apply_ok henter]
    have hopened : ({ m.mapScopes (·.begun) with lastIf := none } : Machine).Restores left := by
      rcases hleft with rfl | ⟨fault, rfl⟩
      · exact hrestores
      · exact Restores.chains.trans hrestores (report_restores _ fault)
    exact .moved rfl ⟨hopened.callDepth, hopened.includeDepth, .condition hopened.scopes _⟩
  · rw [Eval.andThen_apply_error henter]
    exact .of_unwound hrestores rfl rfl rfl hinside

/-- An `else` opens its body, whether it has an `if` or not. -/
theorem enterElse_ends : Ends base .elseMark m (enterElse false ctx (m.mapScopes (·.begun))) := by
  unfold enterElse
  rw [Eval.andThen_apply, Eval.machine_apply]
  dsimp only
  cases (m.mapScopes (·.begun)).lastIf with
  | none => exact .moved rfl ⟨rfl, rfl, .elseMark .skippedElse⟩
  | some outcome =>
    cases outcome
    · exact .moved rfl ⟨rfl, rfl, .elseMark .elseBody⟩
    · exact .moved rfl ⟨rfl, rfl, .elseMark .skippedElse⟩

/-- Outside of functions an item never returns: it moves the scopes as its outline says, or a fault
unwinds it. -/
theorem runItem_ends {item : Item} (h : item.Gentle ctx m) :
    Ends base item.outline m (runItem base false item ctx m) := by
  cases hskipping : m.env.scopes.current.skipping with
  | true =>
    obtain ⟨flow, hflow, hpassed⟩ := @Program.runItem_passedOver base false ctx m hskipping item
    rw [hpassed]
    exact .moved hflow (passedOver_moved item.outline m)
  | false =>
    -- all other items end the wait of a body for its brace first
    by_cases hopen : item = .blockOpen
    · subst hopen
      exact .moved rfl ⟨rfl, rfl, .blockOpen⟩
    unfold runItem
    rw [Eval.andThen_apply_ok (Program.beginItem_running hopen hskipping)]
    cases item with
    | condition test => exact enterIf_ends h hskipping
    | elseMark => exact enterElse_ends
    | blockOpen => exact absurd rfl hopen
    | blockClose =>
      obtain ⟨flow, hflow, hclose⟩ :=
        @Program.closeBlock_afterClose base ctx (m.mapScopes (·.begun))
      dsimp only
      rw [hclose]
      exact .moved hflow (afterClose_moved m)
    | giveBack expr =>
      dsimp only
      unfold runReturn
      rw [if_neg Bool.false_ne_true, if_pos Bool.not_false,
        Eval.andThen_apply_ok (Eval.recover_common rfl ctx _)]
      exact finishStatement_ends rfl (report_restores _ _)
    | expression expr =>
      exact guarded_ends (h hskipping) fun flow left => Program.expressionFlow_returned
    | declaration header body => exact runDeclaration_ends header body
    | rejected e => exact rejected_ends e
    | malformed e =>
      dsimp only
      rw [Eval.andThen_apply_ok (reject_apply e _)]
      exact .moved rfl ⟨rfl, rfl, .malformed (.refl _)⟩

theorem runItem_moved {item : Item} (h : item.Gentle ctx m)
    (hrun : runItem base false item ctx m = (.ok flow, after)) :
    flow.returned? = none ∧ Moved base item.outline m after := by
  have hends := @runItem_ends base ctx m item h
  rw [hrun] at hends
  cases hends with
  | moved hflow hmoved => exact ⟨hflow, hmoved⟩

theorem runItem_unwound {item : Item} (h : item.Gentle ctx m)
    (hrun : runItem base false item ctx m = (.error fault, after)) :
    Moved base .malformed m after ∧ 0 < m.callDepth := by
  have hends := @runItem_ends base ctx m item h
  rw [hrun] at hends
  cases hends with
  | unwound hmoved hinside => exact ⟨hmoved, hinside⟩

/-- How many bodies the end of a statement closes does not depend on whether it has begun. -/
theorem complete_begun (nesting : Nesting) :
    Nesting.complete ⟨Scope.begunKinds nesting.own, nesting.below⟩ = nesting.complete := by
  obtain ⟨own, below⟩ := nesting
  cases own with
  | nil => rfl
  | cons kind rest => cases kind <;> rfl

/-- The nesting of the scopes follows the outlines. -/
theorem Moves.tracks {a b c : ScopeStack} {outline : Outline} (h : Moves 1 b outline c)
    {nesting : Nesting} (htracks : nesting.Tracks a b) : (nesting.next outline).Tracks a c := by
  obtain ⟨above, inner, count, hdescribes⟩ := htracks
  obtain ⟨above', inner', count', hbegun⟩ := hdescribes.begun
  have hwithin {b' : ScopeStack} (hb' : b.begun.Within b') :
      Nesting.Tracks ⟨Scope.begunKinds nesting.own, nesting.below⟩ a b' :=
    hbegun.within_current (ScopeStack.begun_isWaiting b) hb'
  have hclosed {b' : ScopeStack} (hb' : b.begun.Within b') :
      nesting.complete.Tracks a (b'.without (openSingles 1 b'.inner)) := by
    obtain ⟨above, inner, count, hdescribes⟩ := hwithin hb'
    rw [← complete_begun]
    exact hdescribes.singles
  cases h with
  | condition hb' state =>
    obtain ⟨above, inner, count, hdescribes⟩ := hwithin hb'
    exact hdescribes.push state
  | elseMark state => exact hbegun.push state
  | blockOpen => exact hdescribes.opened
  | blockClose hb hopen =>
    subst hb
    exact (hclosed (.refl _)).popped hopen
  | unmatched hb hclosed' =>
    subst hb
    exact (hclosed (.refl _)).unmatched hclosed'
  | statement hb' => exact hclosed hb'
  | malformed hb' => exact hwithin hb'

end Run

end BuildScript
