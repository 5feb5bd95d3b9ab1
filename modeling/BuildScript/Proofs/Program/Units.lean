import BuildScript.Proofs.Program.Layout
import BuildScript.Proofs.Scopes.Within
import BuildScript.Proofs.Evaluation.Equations

/-!
Running placed items one by one, and what each kind does to the machine it finds, in running and in
skipped code.
-/

namespace BuildScript

/-- What a flow gives back, if it ends the body. -/
def Flow.returned? : Flow → Program.Outcome
  | giveBack result => some result
  | _ => none

/-- The machine with other scopes. -/
def Machine.withScopes (m : Machine) (scopes : ScopeStack) : Machine :=
  { m with env := { m.env with scopes } }

theorem ScopeStack.begun_eq {stack : ScopeStack} (h : stack.current.awaitingBody = false) :
    stack.begun = stack := by
  obtain ⟨inner, names⟩ := stack
  cases inner with
  | nil => rfl
  | cons scope rest =>
    have hscope : { scope with awaitingBody := false } = scope := by
      rw [show false = scope.awaitingBody from h.symm]
    exact congrArg (fun scope => (⟨scope :: rest, names⟩ : ScopeStack)) hscope

namespace Program

variable {base : Nat} {inFunction : Bool} {ctx : Context} {m : Machine}

theorem followedBy_apply (x y : Eval Outcome) (ctx : Context) (m : Machine) :
    followedBy x y ctx m = match x ctx m with
      | (.ok none, after) => y ctx after
      | result => result := by
  unfold followedBy
  rw [Eval.andThen_apply]
  obtain ⟨result, after⟩ := x ctx m
  cases result with
  | error fault => rfl
  | ok outcome => cases outcome <;> rfl

theorem followedBy_none {x y : Eval Outcome} {ctx : Context} {m after : Machine}
    (h : x ctx m = (.ok none, after)) : followedBy x y ctx m = y ctx after := by
  rw [followedBy_apply, h]

/-- Runs one item in its line. -/
def drive (base : Nat) (inFunction : Bool) (placed : Placed) : Eval Outcome := do
  atLine placed.1
  return (← Run.runItem base inFunction placed.2).returned?

/-- Runs items in order, each in its line, until one returns. -/
def driveAll (base : Nat) (inFunction : Bool) : List Placed → Eval Outcome
  | [] => return none
  | placed :: rest => followedBy (drive base inFunction placed) (driveAll base inFunction rest)

theorem driveAll_append (first second : List Placed) (ctx : Context) (m : Machine) :
    driveAll base inFunction (first ++ second) ctx m =
      followedBy (driveAll base inFunction first) (driveAll base inFunction second) ctx m := by
  induction first generalizing m with
  | nil => exact (followedBy_none rfl).symm
  | cons placed rest ih =>
    show followedBy _ (driveAll base inFunction (rest ++ second)) ctx m =
      followedBy (followedBy _ (driveAll base inFunction rest)) _ ctx m
    rw [followedBy_apply, followedBy_apply, followedBy_apply]
    obtain ⟨result, after⟩ := drive base inFunction placed ctx m
    rcases result with fault | outcome
    · rfl
    · cases outcome with
      | some value => rfl
      | none =>
        dsimp only
        rw [ih, followedBy_apply]

/-- The machine after a statement that says `outcome` about a following `else`. -/
def finished (base : Nat) (outcome : Option Bool) (m : Machine) : Machine :=
  let closing := Run.closeSingles base outcome m.env.scopes.inner 0
  { m.mapScopes (·.without closing.2) with lastIf := closing.1 }

/-- Finishes the statement after an evaluation unless that returned. -/
def concluding (base : Nat) (x : Eval Outcome) : Eval Outcome :=
  followedBy x do
    Eval.update (finished base none)
    return none

theorem completeStatement_apply (outcome : Option Bool) (m : Machine) :
    ∃ result : Option Flow, (∀ flow, result = some flow → flow.returned? = none) ∧
      Run.completeStatement base outcome ctx m = (.ok result, finished base outcome m) := by
  let closing := Run.closeSingles base outcome m.env.scopes.inner 0
  refine ⟨if closing.2 > 0 then some (Run.ifFlow closing.1) else none, ?_, rfl⟩
  intro flow hflow
  split at hflow
  · cases hflow
    rcases closing.1 with _ | _ | _ <;> rfl
  · cases hflow

theorem finishStatement_apply (flow : Flow) (hflow : flow.returned? = none) (m : Machine) :
    ∃ result : Flow, result.returned? = none ∧
      Run.finishStatement base flow ctx m = (.ok result, finished base none m) := by
  obtain ⟨completed, hcompleted, heq⟩ :=
    @completeStatement_apply base ctx none m
  refine ⟨completed.getD flow, ?_, ?_⟩
  · cases completed with
    | none => exact hflow
    | some flow => exact hcompleted flow rfl
  · unfold Run.finishStatement
    rw [Eval.andThen_apply_ok heq]
    rfl

theorem beginItem_apply {item : Item} (hitem : item ≠ .blockOpen) (m : Machine) :
    Run.beginItem item ctx m = (.ok m.env.scopes.begun.current.skipping, m.mapScopes (·.begun)) := by
  cases item with
  | blockOpen => exact absurd rfl hitem
  | _ => rfl

theorem drive_apply (line : Nat) (item : Item) (m : Machine) :
    drive base inFunction (line, item) ctx m =
      (((Run.runItem base inFunction item ctx { m with line }).1).map Flow.returned?,
        (Run.runItem base inFunction item ctx { m with line }).2) := by
  show (Run.runItem base inFunction item >>= fun flow => pure flow.returned?) ctx
    { m with line } = _
  rw [Eval.andThen_apply]
  obtain ⟨result, after⟩ := Run.runItem base inFunction item ctx { m with line }
  cases result <;> rfl

theorem begun_skipping (stack : ScopeStack) :
    stack.begun.current.skipping = stack.current.skipping := by
  obtain ⟨inner, names⟩ := stack
  cases inner <;> rfl

theorem mapScopes_begun (hsettled : m.env.scopes.current.awaitingBody = false) :
    m.mapScopes (·.begun) = m := by
  unfold Machine.mapScopes
  dsimp only
  rw [ScopeStack.begun_eq hsettled]

theorem beginItem_running {item : Item} (hitem : item ≠ .blockOpen)
    (hlive : m.env.scopes.current.skipping = false) :
    Run.beginItem item ctx m = (.ok false, m.mapScopes (·.begun)) := by
  rw [beginItem_apply hitem, begun_skipping, hlive]

/-- In running code, an item other than a brace finds its scope settled. -/
theorem beginItem_live {item : Item} (hitem : item ≠ .blockOpen)
    (hsettled : m.env.scopes.current.awaitingBody = false)
    (hlive : m.env.scopes.current.skipping = false) :
    Run.beginItem item ctx m = (.ok false, m) := by
  rw [beginItem_running hitem hlive, mapScopes_begun hsettled]

theorem beginItem_skipped {item : Item} (hitem : item ≠ .blockOpen)
    (hskipped : m.env.scopes.current.skipping = true) :
    Run.beginItem item ctx m = (.ok true, m.mapScopes (·.begun)) := by
  rw [beginItem_apply hitem, begun_skipping, hskipped]

/-- An expression statement never returns. -/
theorem expressionFlow_returned {expr : Expr} {flow : Flow} {after : Machine}
    (h : Run.expressionFlow expr ctx m = (.ok flow, after)) : flow.returned? = none := by
  obtain ⟨operand, m1, -, h⟩ := Eval.andThen_ok h
  obtain ⟨m2, m3, -, h⟩ := Eval.andThen_ok h
  split at h
  · cases h
    rfl
  · obtain ⟨operand, m4, -, h⟩ := Eval.andThen_ok h
    obtain ⟨value, m5, -, h⟩ := Eval.andThen_ok h
    cases h
    rfl

theorem guarded_returned {expr : Expr} {flow : Flow} {after : Machine}
    (h : Run.guarded (Run.expressionFlow expr) ctx m = (.ok flow, after)) :
    flow.returned? = none := by
  obtain ⟨result, m1, hattempt, h⟩ := Eval.andThen_ok h
  rw [Eval.attempt_apply] at hattempt
  cases hflow : Run.expressionFlow expr ctx m with
  | mk inner m2 =>
    rw [hflow] at hattempt
    cases hattempt
    cases inner with
    | ok flow' =>
      cases h
      exact expressionFlow_returned hflow
    | error fault =>
      obtain ⟨_, m3, -, h⟩ := Eval.andThen_ok h
      cases h
      rfl

/-- In running code, an expression is performed and finishes its statement. -/
theorem drive_expression (hsettled : m.env.scopes.current.awaitingBody = false)
    (hlive : m.env.scopes.current.skipping = false) (line : Nat) (expr : Expr) :
    drive base inFunction (line, .expression expr) ctx m =
      concluding base (perform line expr) ctx m := by
  have hbegin : Run.beginItem (.expression expr) ctx { m with line } =
      (.ok false, { m with line }) := beginItem_live nofun hsettled hlive
  rw [drive_apply]
  unfold Run.runItem
  rw [Eval.andThen_apply_ok hbegin]
  show Prod.mk (Except.map Flow.returned?
    ((Run.guarded (Run.expressionFlow expr) >>= Run.finishStatement base) ctx _).1)
    ((Run.guarded (Run.expressionFlow expr) >>= Run.finishStatement base) ctx _).2 =
    followedBy (Run.guarded (Run.expressionFlow expr) >>= fun _ => pure none) _ ctx _
  rw [followedBy_apply, Eval.andThen_apply, Eval.andThen_apply]
  cases hflow : Run.guarded (Run.expressionFlow expr) ctx { m with line } with
  | mk result after =>
    cases result with
    | error fault => rfl
    | ok flow =>
      obtain ⟨flow', hreturned, hfinish⟩ :=
        @finishStatement_apply base ctx flow (guarded_returned hflow) after
      dsimp only
      rw [hfinish, Except.map, hreturned]
      rfl

/-- In running code, a `return` outside functions finishes its statement too. -/
theorem drive_giveBack (hsettled : m.env.scopes.current.awaitingBody = false)
    (hlive : m.env.scopes.current.skipping = false) (line : Nat)
    (expr : Option (Except SyntaxError Expr)) :
    drive base inFunction (line, .giveBack expr) ctx m =
      concluding base (giveBack inFunction line expr) ctx m := by
  have hbegin : Run.beginItem (.giveBack expr) ctx { m with line } =
      (.ok false, { m with line }) := beginItem_live nofun hsettled hlive
  rw [drive_apply]
  unfold Run.runItem
  rw [Eval.andThen_apply_ok hbegin]
  unfold concluding
  rw [followedBy_apply]
  cases inFunction with
  | true =>
    show Prod.mk (Except.map Flow.returned? ((Run.returned expr >>= fun value =>
        pure (Flow.giveBack value)) ctx _).1)
      ((Run.returned expr >>= fun value => pure (Flow.giveBack value)) ctx _).2 =
      match (Run.returned expr >>= fun value => pure (some value)) ctx _ with
      | (.ok none, after) => _
      | result => result
    rw [Eval.andThen_apply, Eval.andThen_apply]
    obtain ⟨result, after⟩ := Run.returned expr ctx { m with line }
    cases result <;> rfl
  | false =>
    show Prod.mk (Except.map Flow.returned? ((Eval.recover (.eval .returnOutsideFunction) >>=
        fun _ => Run.finishStatement base .error) ctx _).1)
      ((Eval.recover (.eval .returnOutsideFunction) >>=
        fun _ => Run.finishStatement base .error) ctx _).2 =
      match (Eval.recover (.eval .returnOutsideFunction) >>= fun _ => pure none) ctx _ with
      | (.ok none, after) => _
      | result => result
    rw [Eval.andThen_apply, Eval.andThen_apply]
    obtain ⟨result, after⟩ := Eval.recover (.eval .returnOutsideFunction) ctx { m with line }
    cases result with
    | error fault => rfl
    | ok done =>
      obtain ⟨flow, hreturned, hfinish⟩ := @finishStatement_apply base ctx .error rfl after
      dsimp only
      rw [hfinish, Except.map, hreturned]
      rfl

/-- Tests a condition and opens the branch that waits for its body. -/
def openIf (line : Nat) (condition : Except SyntaxError Expr) : Eval Outcome := do
  let result ← holds line condition
  Run.updateScopes (·.push (.conditional (if result then .ifBody else .skippedIf)))
  return none

/-- In running code, a condition is tested. -/
theorem drive_condition (hsettled : m.env.scopes.current.awaitingBody = false)
    (hlive : m.env.scopes.current.skipping = false) (line : Nat)
    (condition : Except SyntaxError Expr) :
    drive base inFunction (line, .condition condition) ctx m =
      openIf line condition ctx { m with lastIf := none } := by
  have hbegin : Run.beginItem (.condition condition) ctx { m with line } =
      (.ok false, { m with line }) := beginItem_live nofun hsettled hlive
  rw [drive_apply]
  unfold Run.runItem
  rw [Eval.andThen_apply_ok hbegin]
  unfold openIf holds Run.enterIf
  simp only [Bool.false_eq_true, if_false, Eval.andThen_apply, Eval.attempt_apply, atLine,
    Eval.update_apply, Run.setLastIf, Eval.pure_apply]
  cases hcondition : Run.conditionHolds condition ctx { m with line, lastIf := none } with
  | mk result after =>
    cases result with
    | ok result => cases result <;> rfl
    | error fault =>
      dsimp only
      rw [Eval.andThen_apply, Eval.andThen_apply]
      obtain ⟨result, after⟩ := Eval.recover fault ctx after
      cases result <;> rfl

/-- In skipped code, nothing happens but that the statement ends. -/
theorem drive_skipped {item : Item}
    (hitem : (∃ expr, item = .expression expr) ∨ ∃ expr, item = .giveBack expr)
    (hskipped : m.env.scopes.current.skipping = true) (line : Nat) :
    drive base inFunction (line, item) ctx m =
      (.ok none, finished base none ({ m with line }.mapScopes (·.begun))) := by
  have hbegin : Run.beginItem item ctx { m with line } =
      (.ok true, { m with line }.mapScopes (·.begun)) := by
    rcases hitem with ⟨expr, rfl⟩ | ⟨expr, rfl⟩
    · exact beginItem_skipped nofun hskipped
    · exact beginItem_skipped nofun hskipped
  obtain ⟨flow, hreturned, hfinish⟩ :=
    @finishStatement_apply base ctx .nothing rfl ({ m with line }.mapScopes (·.begun))
  have hrun : Run.runItem base inFunction item ctx { m with line } =
      Run.finishStatement base .nothing ctx ({ m with line }.mapScopes (·.begun)) := by
    unfold Run.runItem
    rw [Eval.andThen_apply_ok hbegin]
    rcases hitem with ⟨expr, rfl⟩ | ⟨expr, rfl⟩ <;> rfl
  rw [drive_apply, hrun, hfinish, Except.map, hreturned]

/-- In skipped code, an `if` opens a skipped branch. -/
theorem drive_condition_skipped (hskipped : m.env.scopes.current.skipping = true) (line : Nat)
    (condition : Except SyntaxError Expr) :
    drive base inFunction (line, .condition condition) ctx m =
      (.ok none, { m with line, lastIf := none }.mapScopes fun stack =>
        stack.begun.push (.conditional .skippedIf)) := by
  have hbegin : Run.beginItem (.condition condition) ctx { m with line } =
      (.ok true, { m with line }.mapScopes (·.begun)) := beginItem_skipped nofun hskipped
  rw [drive_apply]
  unfold Run.runItem
  rw [Eval.andThen_apply_ok hbegin]
  rfl

/-- The branch that an `else` opens. -/
def elseState (skipping : Bool) (outcome : Option Bool) : BlockState :=
  match skipping, outcome with
  | false, some false => .elseBody
  | _, _ => .skippedElse

theorem enterElse_paired {skipping : Bool} (hpaired : skipping = true ∨ m.lastIf.isSome) :
    Run.enterElse skipping ctx m =
      (.ok .elseMark, { m with lastIf := none }.mapScopes
        (·.push (.conditional (elseState skipping m.lastIf)))) := by
  unfold Run.enterElse
  rw [Eval.andThen_apply, Eval.machine_apply]
  dsimp only
  cases hlast : m.lastIf with
  | none =>
    rw [hlast] at hpaired
    rcases hpaired with hskip | hsome
    · rw [hskip]
      rfl
    · cases hsome
  | some outcome => cases outcome <;> cases skipping <;> rfl

/-- An `else` opens a branch that runs if the `if` before it did not, without a report if there was
one. -/
theorem drive_else (hpaired : m.env.scopes.current.skipping = true ∨ m.lastIf.isSome)
    (line : Nat) :
    drive base inFunction (line, .elseMark) ctx m =
      (.ok none, { m with line, lastIf := none }.mapScopes fun stack =>
        stack.begun.push (.conditional (elseState m.env.scopes.current.skipping m.lastIf))) := by
  have hbegin : Run.beginItem .elseMark ctx { m with line } =
      (.ok m.env.scopes.current.skipping, { m with line }.mapScopes (·.begun)) := by
    have hitem : Item.elseMark ≠ .blockOpen := nofun
    rw [beginItem_apply hitem, begun_skipping]
  have helse := @enterElse_paired ctx ({ m with line }.mapScopes (·.begun))
    m.env.scopes.current.skipping hpaired
  rw [drive_apply]
  unfold Run.runItem
  rw [Eval.andThen_apply_ok hbegin]
  dsimp only
  rw [helse]
  rfl

/-- In running code, an `else` without an `if` before it is reported. -/
theorem drive_else_unpaired (hsettled : m.env.scopes.current.awaitingBody = false)
    (hlive : m.env.scopes.current.skipping = false) (hlast : m.lastIf = none) (line : Nat) :
    (drive base inFunction (line, .elseMark) ctx m).2.errorCount = m.errorCount + 1 := by
  have hbegin : Run.beginItem .elseMark ctx { m with line } = (.ok false, { m with line }) :=
    beginItem_live nofun hsettled hlive
  rw [drive_apply]
  unfold Run.runItem
  rw [Eval.andThen_apply_ok hbegin]
  dsimp only
  unfold Run.enterElse
  rw [Eval.andThen_apply, Eval.machine_apply]
  dsimp only
  rw [hlast]
  rfl

/-- An opening brace opens a block or the branch that waits for one. -/
theorem drive_blockOpen (line : Nat) (m : Machine) :
    drive base inFunction (line, .blockOpen) ctx m =
      (.ok none, { m with line, lastIf := none }.mapScopes (·.opened)) := rfl

theorem closeBlock_apply {block : Scope} {rest : List Scope} {names : Bindings}
    (hblock : block.singleLine = false) (hbase : base < rest.length + 2) (m : Machine) :
    ∃ flow : Flow, flow.returned? = none ∧
      Run.closeBlock base ctx (m.withScopes ⟨block :: rest, names⟩) =
        (.ok flow, finished base (Run.blockOutcome block.state)
          (m.withScopes ⟨rest, names⟩)) := by
  obtain ⟨completed, hcompleted, hcomplete⟩ := @completeStatement_apply base ctx
    (Run.blockOutcome block.state) (m.withScopes ⟨rest, names⟩)
  have hopen : Run.openSingles base (block :: rest) = 0 := by
    unfold Run.openSingles
    rw [hblock, Bool.and_false]
    rfl
  have hupdate : Run.updateScopes (fun stack =>
      { stack with inner := stack.inner.drop (Run.openSingles base stack.inner) }) ctx
      (m.withScopes ⟨block :: rest, names⟩) = (.ok (), m.withScopes ⟨block :: rest, names⟩) := by
    show ((.ok (), (m.withScopes ⟨block :: rest, names⟩).withScopes
      ⟨(block :: rest).drop (Run.openSingles base (block :: rest)), names⟩) :
        Except Fault Unit × Machine) = _
    rw [hopen]
    rfl
  refine ⟨completed.getD (Run.ifFlow (Run.blockOutcome block.state)), ?_, ?_⟩
  · cases completed with
    | none =>
      rcases Run.blockOutcome block.state with _ | _ | _ <;> rfl
    | some flow => exact hcompleted flow rfl
  · unfold Run.closeBlock
    rw [Eval.andThen_apply_ok hupdate]
    rw [Eval.andThen_apply_ok (show Run.scopes ctx (m.withScopes ⟨block :: rest, names⟩) =
      (.ok ⟨block :: rest, names⟩, m.withScopes ⟨block :: rest, names⟩) from rfl)]
    have hdepth : ¬(ScopeStack.mk (block :: rest) names).depth ≤ base := Nat.not_le.mpr hbase
    have hpop : Run.updateScopes (fun _ => ⟨rest, names⟩) ctx
        (m.withScopes ⟨block :: rest, names⟩) = (.ok (), m.withScopes ⟨rest, names⟩) := rfl
    rw [if_neg hdepth]
    show (Run.updateScopes (fun _ => ⟨rest, names⟩) >>= fun _ =>
      Run.completeStatement base (Run.blockOutcome block.state) >>= fun completed =>
        pure (completed.getD (Run.ifFlow (Run.blockOutcome block.state)))) ctx _ = _
    rw [Eval.andThen_apply_ok hpop, Eval.andThen_apply_ok hcomplete]
    rfl

/-- A closing brace takes off the block it closes and finishes the statement that the block is. -/
theorem drive_blockClose {block : Scope} {rest : List Scope} {names : Bindings}
    (hscopes : m.env.scopes = ⟨block :: rest, names⟩) (hblock : block.singleLine = false)
    (hbase : base < rest.length + 2) (line : Nat) :
    drive base inFunction (line, .blockClose) ctx m =
      (.ok none, finished base (Run.blockOutcome block.state)
        ({ m with line }.withScopes ⟨rest, names⟩)) := by
  have hbegin : Run.beginItem .blockClose ctx { m with line } =
      (.ok block.skipping, { m with line }.withScopes
        ⟨{ block with awaitingBody := false } :: rest, names⟩) := by
    have hitem : Item.blockClose ≠ .blockOpen := nofun
    rw [beginItem_apply hitem]
    unfold Machine.mapScopes
    dsimp only
    rw [hscopes]
    rfl
  obtain ⟨flow, hreturned, hclose⟩ := @closeBlock_apply base ctx
    { block with awaitingBody := false } rest names hblock hbase { m with line }
  have hrun : Run.runItem base inFunction .blockClose ctx { m with line } =
      (.ok flow, finished base (Run.blockOutcome block.state)
        ({ m with line }.withScopes ⟨rest, names⟩)) := by
    unfold Run.runItem
    rw [Eval.andThen_apply_ok hbegin]
    exact hclose
  rw [drive_apply, hrun, Except.map, hreturned]

end Program

end BuildScript
