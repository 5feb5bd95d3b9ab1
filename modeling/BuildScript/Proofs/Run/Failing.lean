import BuildScript.Proofs.Run.Moves
import BuildScript.Proofs.Run.Lasting

/-!
The flow of a fed line says that the line failed exactly when an error was reported while it ran, but
for one kind of line: in a skipped block, an item that cannot be read is passed over in silence like
any other, and yet its flow is that of a failed one.
-/

namespace BuildScript

variable {ctx : Context} {m after : Machine} {flow : Flow}

/-- Ways back into the interpreter that take back no reports. -/
structure Reentry.Reports (reentry : Reentry) : Prop where
  evalLine : ∀ text (m : Machine), m.NoFewerErrors (reentry.evalLine text m).2
  callValue : ∀ function args (m : Machine),
    m.NoFewerErrors (reentry.callValue function args m).2

/-- An embedding program whose entry points take back no reports. -/
def Host.Reports (host : Host) : Prop :=
  ∀ entry (reentry : Reentry) args (m : Machine), reentry.Reports →
    m.NoFewerErrors (host entry reentry args m).2

theorem Host.none_reports : Host.none.Reports := fun _ _ _ _ _ => Nat.le_refl _

theorem Host.Reports.keeps {host : Host} (h : host.Reports) : host.Keeps Machine.NoFewerErrors :=
  fun entry reentry args m hline hcall => h entry reentry args m ⟨hline, hcall⟩

namespace Run

/-- An item that is passed over in silence and fails nevertheless: it cannot be read, and no body
without braces ends with it whose flow would take the place of its own. -/
def Hushed (item : Item) (m : Machine) : Prop :=
  m.env.scopes.current.skipping = true ∧
    match item with
    | .malformed _ => True
    | .rejected _ | .declaration _ (.error _) => m.env.scopes.current.singleLine = false
    | _ => False

/-- Items of which the last one is reached without a report and hushed. -/
def EndsHushed (ctx : Context) (flow : Flow) (items : List Item) (m : Machine) : Prop :=
  ∃ front last own before, items = front ++ [last] ∧
    runItems 1 false flow front ctx m = (.ok own, before) ∧
    before.errorCount = m.errorCount ∧ Hushed last before

theorem ifFlow_returned (outcome : Option Bool) : (ifFlow outcome).returned? = none := by
  rcases outcome with _ | _ | _ <;> rfl

theorem ifFlow_ne_error (outcome : Option Bool) : ifFlow outcome ≠ .error := by
  rcases outcome with _ | _ | _ <;> exact Flow.noConfusion

/-- Above the global scope, the end of a statement closes bodies if the innermost scope is one. -/
theorem openSingles_one (stack : ScopeStack) :
    openSingles 1 stack.inner = 0 ↔ stack.current.singleLine = false := by
  obtain ⟨inner, names⟩ := stack
  cases inner with
  | nil => exact ⟨fun _ => rfl, fun _ => rfl⟩
  | cons scope rest =>
    show (if rest.length + 2 > 1 && scope.singleLine then _ else _) = 0 ↔ scope.singleLine = false
    cases scope.singleLine <;> simp

/-- The flow of a finished statement is its own unless a body ends with it. -/
theorem finishStatement_flow (flow : Flow) (m : Machine) :
    ∃ flow', finishStatement 1 flow ctx m = (.ok flow', Program.finished 1 none m) ∧
      (flow' = flow ∧ m.env.scopes.current.singleLine = false ∨
        (∃ outcome, flow' = ifFlow outcome) ∧ m.env.scopes.current.singleLine = true) := by
  have hclosed := @closeSingles_closed 1 none m.env.scopes.inner 0
  rw [Nat.zero_add] at hclosed
  refine ⟨_, rfl, ?_⟩
  rw [hclosed]
  cases hsingle : m.env.scopes.current.singleLine with
  | false =>
    rw [(openSingles_one m.env.scopes).mpr hsingle]
    exact .inl ⟨rfl, rfl⟩
  | true =>
    have hsome : openSingles 1 m.env.scopes.inner > 0 := by
      refine Nat.pos_of_ne_zero fun hnone => ?_
      rw [(openSingles_one m.env.scopes).mp hnone] at hsingle
      cases hsingle
    rw [if_pos hsome]
    exact .inr ⟨⟨_, rfl⟩, rfl⟩

/-- A completed statement gives the flow of an `if`, if any. -/
theorem completeStatement_flow {outcome : Option Bool} {completed : Option Flow}
    (h : completeStatement 1 outcome ctx m = (.ok completed, after)) (own : Option Bool) :
    completed.getD (ifFlow own) ≠ .error := by
  have hcompleted : (if (closeSingles 1 outcome m.env.scopes.inner 0).2 > 0 then
      some (ifFlow (closeSingles 1 outcome m.env.scopes.inner 0).1) else none) = completed :=
    Except.ok.inj (congrArg Prod.fst h)
  subst hcompleted
  split
  · exact ifFlow_ne_error _
  · exact ifFlow_ne_error own

theorem begun_singleLine (m : Machine) :
    (m.mapScopes (·.begun)).env.scopes.current.singleLine =
      m.env.scopes.current.singleLine := by
  obtain ⟨⟨⟨inner, names⟩, memory⟩⟩ := m
  cases inner <;> rfl

/-- A flow that gives nothing back, and is that of a failure only if one was reported since `m`. -/
structure Told (m : Machine) (flow : Flow) (after : Machine) : Prop where
  returned : flow.returned? = none
  reported : flow = .error → m.errorCount < after.errorCount

theorem finishStatement_told {between : Machine} {flow' : Flow} (h : Told m flow between)
    (hrun : finishStatement 1 flow ctx between = (.ok flow', after)) : Told m flow' after := by
  obtain ⟨flow'', hfinish, hflow⟩ := @finishStatement_flow ctx flow between
  rw [hfinish] at hrun
  cases hrun
  rcases hflow with ⟨rfl, -⟩ | ⟨⟨outcome, rfl⟩, -⟩
  · exact ⟨h.returned, h.reported⟩
  · exact ⟨ifFlow_returned outcome, fun herror => absurd herror (ifFlow_ne_error outcome)⟩

/-- A brace fails if it closes nothing, and says so. -/
theorem closeBlock_told (h : closeBlock 1 ctx m = (.ok flow, after)) : Told m flow after := by
  obtain ⟨flow', hreturned, hclose⟩ := @Program.closeBlock_afterClose 1 ctx m
  rw [hclose] at h
  cases h
  refine ⟨hreturned, ?_⟩
  rintro rfl
  obtain ⟨_, opened, hsingles, h⟩ := Eval.andThen_ok hclose
  obtain ⟨stack, same, hscopes, h⟩ := Eval.andThen_ok h
  split at h
  · obtain ⟨_, reported, hrecover, h⟩ := Eval.andThen_ok h
    rw [Eval.recover_common rfl] at hrecover
    have hafter := congrArg (fun ran => ran.2.errorCount) h
    cases hrecover
    cases hscopes
    cases hsingles
    exact Nat.lt_of_lt_of_eq (Nat.lt_succ_self _) hafter
  · obtain ⟨_, popped, -, h⟩ := Eval.andThen_ok h
    obtain ⟨completed, left, hcomplete, h⟩ := Eval.andThen_ok h
    exact absurd (Except.ok.inj (congrArg Prod.fst h)) (completeStatement_flow hcomplete _)

/-- Performing a statement never fails of itself. -/
theorem expressionFlow_ne_error {expr : Expr}
    (h : expressionFlow expr ctx m = (.ok flow, after)) : flow ≠ .error := by
  obtain ⟨operand, m1, -, h⟩ := Eval.andThen_ok h
  obtain ⟨m2, m3, -, h⟩ := Eval.andThen_ok h
  split at h
  · cases h
    exact Flow.noConfusion
  · obtain ⟨operand, m4, -, h⟩ := Eval.andThen_ok h
    obtain ⟨value, m5, -, h⟩ := Eval.andThen_ok h
    cases h
    exact Flow.noConfusion

theorem guarded_told {x : Eval Flow} (hx : Eval.Keeps Machine.NoFewerErrors ctx x)
    (hflow : ∀ flow left, x ctx m = (.ok flow, left) → flow.returned? = none ∧ flow ≠ .error)
    (h : guarded x ctx m = (.ok flow, after)) : Told m flow after := by
  have hkept := hx.apply m
  rcases @guarded_apply ctx x m with ⟨flow', left, hleft, hguarded⟩ | ⟨fault, hguarded, -⟩
  · rw [hguarded] at h
    cases h
    rcases hleft with hran | ⟨fault, rfl, rfl⟩
    · obtain ⟨hreturned, hsound⟩ := hflow _ _ hran
      exact ⟨hreturned, fun herror => absurd herror hsound⟩
    · exact ⟨rfl, fun _ => Nat.lt_succ_of_le hkept⟩
  · rw [hguarded] at h
    cases h

/-- In running code, an item fails with a report only. -/
theorem runItem_live_told (hctx : ctx.Reports) (hlive : m.env.scopes.current.skipping = false)
    {item : Item} (h : runItem 1 false item ctx m = (.ok flow, after)) : Told m flow after := by
  have hother (hsound : flow ≠ .error) (hreturned : flow.returned? = none) : Told m flow after :=
    ⟨hreturned, fun herror => absurd herror hsound⟩
  by_cases hopen : item = .blockOpen
  · subst hopen
    cases h
    exact hother Flow.noConfusion rfl
  have hsteps := (reports_effects hctx 1).lines
  unfold runItem at h
  rw [Eval.andThen_apply_ok (Program.beginItem_running hopen hlive)] at h
  have hreject (e : SyntaxError) :
      Told m .error ((m.mapScopes (·.begun)).report (.parse e)) :=
    ⟨rfl, fun _ => Nat.lt_succ_self _⟩
  cases item with
  | condition test =>
    obtain ⟨_, between, -, h⟩ := Eval.andThen_ok h
    cases h
    exact hother Flow.noConfusion rfl
  | elseMark =>
    have hflow : flow = .elseMark := by
      dsimp only at h
      unfold enterElse at h
      rw [Eval.andThen_apply_ok (Eval.machine_apply ctx _)] at h
      dsimp only at h
      cases hlast : (m.mapScopes (·.begun)).lastIf with
      | none =>
        rw [hlast] at h
        cases h
        rfl
      | some outcome =>
        rw [hlast] at h
        cases outcome <;> cases h <;> rfl
    subst hflow
    exact hother Flow.noConfusion rfl
  | blockOpen => exact absurd rfl hopen
  | blockClose =>
    have hclose : closeBlock 1 ctx (m.mapScopes (·.begun)) = (.ok flow, after) := h
    exact ⟨(closeBlock_told hclose).returned, (closeBlock_told hclose).reported⟩
  | giveBack expr =>
    dsimp only at h
    unfold runReturn at h
    rw [if_neg Bool.false_ne_true, if_pos Bool.not_false,
      Eval.andThen_apply_ok (Eval.recover_common rfl ctx _)] at h
    exact finishStatement_told ⟨rfl, fun _ => Nat.lt_succ_self _⟩ h
  | expression expr =>
    obtain ⟨own, between, hguarded, hfinish⟩ := Eval.andThen_ok h
    have htold := guarded_told (hsteps.expressionFlow expr)
      (fun _ _ hran => ⟨Program.expressionFlow_returned hran, expressionFlow_ne_error hran⟩) hguarded
    exact finishStatement_told ⟨htold.returned, htold.reported⟩ hfinish
  | declaration header body =>
    cases body with
    | error e =>
      dsimp only [runDeclaration] at h
      rw [Eval.andThen_apply_ok (reject_apply e _)] at h
      exact finishStatement_told (hreject e) h
    | ok body =>
      obtain ⟨own, between, hguarded, hfinish⟩ := Eval.andThen_ok h
      have htold := guarded_told (hsteps.bind (hsteps.declareHeader header body) fun _ =>
        hsteps.pure Flow.nothing) (fun flow left hdeclared => by
          obtain ⟨_, declared, -, hrest⟩ := Eval.andThen_ok hdeclared
          cases hrest
          exact ⟨rfl, Flow.noConfusion⟩) hguarded
      exact finishStatement_told ⟨htold.returned, htold.reported⟩ hfinish
  | rejected e =>
    dsimp only at h
    rw [Eval.andThen_apply_ok (reject_apply e _)] at h
    exact finishStatement_told (hreject e) h
  | malformed e =>
    dsimp only at h
    rw [Eval.andThen_apply_ok (reject_apply e _)] at h
    cases h
    exact hreject e

/-- In skipped code, an item fails if it is hushed, and otherwise with a report only. -/
theorem runItem_skipped_told (hskipped : m.env.scopes.current.skipping = true) {item : Item}
    (h : runItem 1 false item ctx m = (.ok flow, after)) : Told m flow after ∨ Hushed item m := by
  have hreturned : flow.returned? = none := by
    obtain ⟨flow', hreturned, hpassed⟩ :=
      @Program.runItem_passedOver 1 false ctx m hskipped item
    rw [hpassed] at h
    cases h
    exact hreturned
  have hother (hsound : flow ≠ .error) : Told m flow after ∨ Hushed item m :=
    .inl ⟨hreturned, fun herror => absurd herror hsound⟩
  by_cases hopen : item = .blockOpen
  · subst hopen
    cases h
    exact hother Flow.noConfusion
  unfold runItem at h
  rw [Eval.andThen_apply_ok (Program.beginItem_skipped hopen hskipped)] at h
  have hnothing (hfinish : finishStatement 1 .nothing ctx (m.mapScopes (·.begun)) =
      (.ok flow, after)) : Told m flow after :=
    finishStatement_told ⟨rfl, fun herror => absurd herror Flow.noConfusion⟩ hfinish
  have hfailed (hfinish : finishStatement 1 .error ctx (m.mapScopes (·.begun)) =
      (.ok flow, after)) : flow ≠ .error ∨ m.env.scopes.current.singleLine = false := by
    obtain ⟨flow', hflow', hown⟩ := @finishStatement_flow ctx .error (m.mapScopes (·.begun))
    rw [hflow'] at hfinish
    cases hfinish
    rcases hown with ⟨rfl, hsingle⟩ | ⟨⟨outcome, rfl⟩, -⟩
    · exact .inr ((begun_singleLine m).symm.trans hsingle)
    · exact .inl (ifFlow_ne_error outcome)
  cases item with
  | condition test =>
    cases h
    exact hother Flow.noConfusion
  | elseMark =>
    dsimp only at h
    rw [@Program.enterElse_paired ctx (m.mapScopes (·.begun)) true (.inl rfl)] at h
    cases h
    exact hother Flow.noConfusion
  | blockOpen => exact absurd rfl hopen
  | blockClose =>
    have hclose : closeBlock 1 ctx (m.mapScopes (·.begun)) = (.ok flow, after) := h
    exact .inl ⟨hreturned, (closeBlock_told hclose).reported⟩
  | giveBack expr => exact .inl (hnothing h)
  | expression expr => exact .inl (hnothing h)
  | declaration header body =>
    cases body with
    | error e => exact (hfailed h).elim hother fun hsingle => .inr ⟨hskipped, hsingle⟩
    | ok body => exact .inl (hnothing h)
  | rejected e => exact (hfailed h).elim hother fun hsingle => .inr ⟨hskipped, hsingle⟩
  | malformed e => exact .inr ⟨hskipped, trivial⟩

/-- A hushed item fails and reports nothing. -/
theorem Hushed.fails {item : Item} (h : Hushed item m) :
    runItem 1 false item ctx m = (.ok .error, Program.passedOver 1 item.outline m) ∧
      (Program.passedOver 1 item.outline m).errorCount = m.errorCount := by
  obtain ⟨hskipped, hitem⟩ := h
  have hfinish (hsingle : m.env.scopes.current.singleLine = false) :
      finishStatement 1 .error ctx (m.mapScopes (·.begun)) =
        (.ok .error, Program.finished 1 none (m.mapScopes (·.begun))) := by
    obtain ⟨flow, hflow, hown⟩ := @finishStatement_flow ctx .error (m.mapScopes (·.begun))
    rw [hflow]
    rcases hown with ⟨rfl, -⟩ | ⟨-, hclosed⟩
    · rfl
    · rw [begun_singleLine, hsingle] at hclosed
      cases hclosed
  have hbegin (hopen : item ≠ .blockOpen) := @Program.beginItem_skipped ctx m item hopen hskipped
  cases item with
  | malformed e =>
    refine ⟨?_, rfl⟩
    unfold runItem
    rw [Eval.andThen_apply_ok (hbegin Item.noConfusion)]
    rfl
  | rejected e =>
    refine ⟨?_, rfl⟩
    unfold runItem
    rw [Eval.andThen_apply_ok (hbegin Item.noConfusion)]
    exact hfinish hitem
  | declaration header body =>
    cases body with
    | error e =>
      refine ⟨?_, rfl⟩
      unfold runItem
      rw [Eval.andThen_apply_ok (hbegin Item.noConfusion)]
      exact hfinish hitem
    | ok body => exact absurd hitem id
  | _ => exact absurd hitem id

theorem runItem_told (hctx : ctx.Reports) {item : Item}
    (h : runItem 1 false item ctx m = (.ok flow, after)) : Told m flow after ∨ Hushed item m := by
  cases hskipping : m.env.scopes.current.skipping with
  | true => exact runItem_skipped_told hskipping h
  | false => exact .inl (runItem_live_told hctx hskipping h)

/-- Items fail if the last one is reached in silence and hushed, and otherwise with a report only. -/
theorem runItems_told (hctx : ctx.Reports) {items : List Item} {flow' : Flow}
    (hflow : flow.returned? = none)
    (h : runItems 1 false flow items ctx m = (.ok flow', after)) :
    flow'.returned? = none ∧ (flow' = .error → m.errorCount < after.errorCount ∨
      items = [] ∧ flow = .error ∨ EndsHushed ctx flow items m) := by
  induction items generalizing flow m with
  | nil =>
    cases h
    exact ⟨hflow, fun herror => .inr (.inl ⟨rfl, herror⟩)⟩
  | cons item rest ih =>
    rw [Program.runItems_cons] at h
    cases hitem : runItem 1 false item ctx m with
    | mk result between =>
      rw [hitem] at h
      cases result with
      | error fault => cases h
      | ok own =>
        have hown := runItem_told hctx hitem
        have hreturned : own.returned? = none := by
          rcases hown with htold | hhushed
          · exact htold.returned
          · rw [hhushed.fails.1] at hitem
            cases hitem
            rfl
        rw [goOn_none hreturned] at h
        obtain ⟨hreturned', herror⟩ := ih hreturned h
        refine ⟨hreturned', fun hfailed => ?_⟩
        have hsteps := (reports_effects hctx 1).lines
        have hfirst := (hsteps.runItem false item).apply m
        have hlater := (hsteps.runItems false own rest).apply between
        rw [hitem] at hfirst
        rw [h] at hlater
        rcases Nat.lt_or_ge m.errorCount after.errorCount with hgrew | hsilent
        · exact .inl hgrew
        have hbetween : between.errorCount = m.errorCount :=
          Nat.le_antisymm (Nat.le_trans hlater hsilent) hfirst
        rcases herror hfailed with hgrew | ⟨rfl, rfl⟩ | ⟨front, last, own', before, rfl, hrun, hcount,
          hhushed⟩
        · exact .inl (Nat.lt_of_le_of_lt hfirst hgrew)
        · rcases hown with htold | hhushed
          · exact .inl (Nat.lt_of_lt_of_le (htold.reported rfl) hlater)
          · exact .inr (.inr ⟨[], item, flow, m, rfl, rfl, rfl, hhushed⟩)
        · refine .inr (.inr ⟨item :: front, last, own', before, rfl, ?_, hcount.trans hbetween,
            hhushed⟩)
          rw [Program.runItems_cons, hitem, goOn_none hreturned]
          exact hrun

/-- Items that end hushed fail and report nothing. -/
theorem EndsHushed.fails (hctx : ctx.Reports) {items : List Item} (hflow : flow.returned? = none)
    (h : EndsHushed ctx flow items m) :
    ∃ after, runItems 1 false flow items ctx m = (.ok .error, after) ∧
      after.errorCount = m.errorCount := by
  obtain ⟨front, last, own, before, rfl, hrun, hcount, hhushed⟩ := h
  obtain ⟨hlast, hsilent⟩ := @Hushed.fails ctx before last hhushed
  refine ⟨_, ?_, hsilent.trans hcount⟩
  rw [runItems_append hflow, hrun, goOn_none (runItems_told hctx hflow hrun).1,
    Program.runItems_cons, hlast]
  rfl

/-- A line is that of its items, unless an error was reported meanwhile. -/
theorem runLine_counted {items : List Item} (hflow : flow.returned? = none)
    (h : runItems 1 false .nothing items ctx m = (.ok flow, after)) :
    runLine 1 false items ctx m =
      (.ok (if after.errorCount > m.errorCount then .error else flow), after) := by
  unfold runLine
  rw [Eval.andThen_apply_ok (Eval.machine_apply ctx m), Eval.andThen_apply_ok h]
  cases flow with
  | giveBack value => cases hflow
  | _ => rfl

theorem runLine_unwound {items : List Item} {fault : Fault}
    (h : runItems 1 false .nothing items ctx m = (.error fault, after)) :
    runLine 1 false items ctx m = (.error fault, after) := by
  unfold runLine
  rw [Eval.andThen_apply_ok (Eval.machine_apply ctx m), Eval.andThen_apply_error h]

end Run

namespace Session

/-- A line that lexes and whose items end hushed. -/
def LineHushed (ctx : Context) (text : String) (m : Machine) : Prop :=
  ∃ lexed, Lexed.ofLine text = .ok lexed ∧
    Run.EndsHushed ctx .nothing (Item.ofTokens m.line lexed.tokens []).1 m

/-- What the flow of a fed line says about reports. It is that of a failure if one was made, and only
then, but for a hushed line, which fails and reports nothing. -/
structure Tells (ctx : Context) (text : String) (m : Machine) (flow : Flow) (after : Machine) :
    Prop where
  failed : m.errorCount < after.errorCount → flow = .error
  reported : flow = .error → m.errorCount < after.errorCount ∨ LineHushed ctx text m
  hushed : LineHushed ctx text m → flow = .error ∧ after.errorCount = m.errorCount

theorem feedLine_tells (hctx : ctx.Reports) (text : String) (m : Machine) :
    ∃ flow after, feedLine text ctx m = (.ok flow, after) ∧ Tells ctx text m flow after := by
  cases htext : Lexed.ofLine text with
  | error e =>
    have hfed : feedLine text ctx m = (.ok .error, m.report (.parse e)) := by
      unfold feedLine
      rw [htext]
      rfl
    refine ⟨_, _, hfed, fun _ => rfl, fun _ => .inl (Nat.lt_succ_self _), ?_⟩
    rintro ⟨lexed, hlexed, -⟩
    rw [htext] at hlexed
    cases hlexed
  | ok lexed =>
    let items := (Item.ofTokens m.line lexed.tokens []).1
    have hfed : feedLine text ctx m = settle (Run.runLine 1 false items) ctx m := by
      unfold feedLine
      rw [htext]
      rfl
    have hhushed (h : LineHushed ctx text m) :
        ∃ after, Run.runItems 1 false .nothing items ctx m = (.ok .error, after) ∧
          after.errorCount = m.errorCount := by
      obtain ⟨lexed', hlexed, hends⟩ := h
      rw [htext] at hlexed
      cases hlexed
      exact hends.fails hctx rfl
    have hkept := ((Run.reports_effects hctx 1).lines.runItems false .nothing items).apply m
    rw [hfed]
    unfold settle
    rw [Eval.andThen_apply, Eval.attempt_apply]
    cases hrun : Run.runItems 1 false .nothing items ctx m with
    | mk result after =>
      rw [hrun] at hkept hhushed
      cases result with
      | error fault =>
        rw [Run.runLine_unwound hrun]
        refine ⟨.error, after.report fault, rfl, fun _ => rfl,
          fun _ => .inl (Nat.lt_succ_of_le hkept), fun h => ?_⟩
        obtain ⟨left, hfails, -⟩ := hhushed h
        cases hfails
      | ok flow =>
        obtain ⟨hreturned, htold⟩ := Run.runItems_told hctx rfl hrun
        rw [Run.runLine_counted hreturned hrun]
        refine ⟨if after.errorCount > m.errorCount then .error else flow, after, rfl,
          fun hgrew => if_pos hgrew, fun herror => ?_, fun h => ?_⟩
        · split at herror
          · rename_i hgrew
            exact .inl hgrew
          · rcases htold herror with hgrew | ⟨-, hflow⟩ | hends
            · exact .inl hgrew
            · cases hflow
            · exact .inr ⟨lexed, htext, hends⟩
        · obtain ⟨left, hfails, hsilent⟩ := hhushed h
          cases hfails
          exact ⟨ite_self _, hsilent⟩

/-- A fed line fails exactly if an error was reported while it ran, whatever the lines before it left
open, whether it is fed from outside or from a call of the embedding program; but for a line whose
last item is reached in silence in a skipped part, cannot be read, and ends no body without braces.
Such a line fails although nothing was reported. -/
theorem fed_line_flow_tells {host : Host} (hhost : host.Reports) (text : String) (m : Machine) :
    Tells (context host (budget m) []) text m (evalLine host text m).1 (evalLine host text m).2 ∧
    ∀ budget held,
      let ctx := context host budget held
      Tells ctx text m ((reentry ctx).evalLine text m).1 ((reentry ctx).evalLine text m).2 := by
  constructor
  · obtain ⟨flow, after, hfed, htells⟩ :=
      feedLine_tells (context_reports hhost.keeps (budget m) []) text m
    unfold evalLine runFlow run
    rw [hfed]
    exact htells
  · intro budget held ctx
    obtain ⟨flow, after, hfed, htells⟩ :=
      feedLine_tells (context_reports hhost.keeps budget held) text m
    unfold reentry
    dsimp only
    rw [hfed]
    exact htells

/-- A new interpreter in the braced body of an `if` that did not hold. -/
def inSkippedBlock : Machine :=
  (Machine.initial .standard (.shelf ⟨[]⟩)).mapScopes fun scopes =>
    (scopes.push (.conditional .skippedIf)).opened

/-- A skipped assignment to an undeclared name does not fail, so nothing was reported. -/
theorem skipped_assignment_tells :
    Host.none.Reports ∧ (evalLine .none "x = 1" inSkippedBlock).1 = .nothing ∧
      (evalLine .none "x = 1" inSkippedBlock).2.errorCount ≤ inSkippedBlock.errorCount := by
  have hflow : (evalLine .none "x = 1" inSkippedBlock).1 = .nothing := by cbv
  have htells := (fed_line_flow_tells Host.none_reports "x = 1" inSkippedBlock).1
  refine ⟨Host.none_reports, hflow, Nat.le_of_not_lt fun hgrew => ?_⟩
  cases hflow.symm.trans (htells.failed hgrew)

/-- In a skipped block, a statement that cannot be read fails although nothing is reported. -/
theorem skipped_fragment_fails :
    ¬∀ (text : String) (m : Machine), (evalLine .none text m).1 = .error ↔
      m.errorCount < (evalLine .none text m).2.errorCount := by
  intro hclaim
  have hflow : (evalLine .none "1 +" inSkippedBlock).1 = .error := by cbv
  have hsilent : (evalLine .none "1 +" inSkippedBlock).2.errorCount = 0 := by cbv
  have hgrew := (hclaim "1 +" inSkippedBlock).mp hflow
  rw [hsilent] at hgrew
  cases hgrew

end Session

end BuildScript
