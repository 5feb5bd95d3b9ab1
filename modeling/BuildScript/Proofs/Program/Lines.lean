import BuildScript.Proofs.Program.Execution

/-!
Running the lines of a structured program executes the program, however its units fall into lines.
-/

namespace BuildScript

namespace Run

/-- Goes on with what comes next, unless something was given back or a fault unwinds. -/
def goOn (first : Except Fault Flow × Machine)
    (next : Flow → Machine → Except Fault Flow × Machine) : Except Fault Flow × Machine :=
  match first with
  | (.error fault, after) => (.error fault, after)
  | (.ok flow, after) =>
    match flow.returned? with
    | some value => (.ok (.giveBack value), after)
    | none => next flow after

variable {first : Except Fault Flow × Machine} {flow : Flow} {after : Machine}
  {next later : Flow → Machine → Except Fault Flow × Machine}

theorem goOn_none (h : flow.returned? = none) : goOn (.ok flow, after) next = next flow after := by
  unfold goOn
  dsimp only
  rw [h]

/-- What came first is all there is, or nothing was given back and what comes next has its turn. -/
theorem goOn_cases (first : Except Fault Flow × Machine) :
    ((∀ next, goOn first next = first) ∧
      ∀ flow after, first = (.ok flow, after) → flow.returned? ≠ none) ∨
    ∃ flow after, first = (.ok flow, after) ∧ flow.returned? = none := by
  obtain ⟨result, after⟩ := first
  cases result with
  | error fault => exact .inl ⟨fun _ => rfl, nofun⟩
  | ok flow =>
    cases flow with
    | giveBack value =>
      refine .inl ⟨fun _ => rfl, ?_⟩
      rintro _ _ ⟨⟩
      exact Option.some_ne_none value
    | _ => exact .inr ⟨_, after, rfl, rfl⟩

/-- What comes next matters only where nothing was given back. -/
theorem goOn_congr (h : ∀ flow : Flow, flow.returned? = none → ∀ m, next flow m = later flow m) :
    goOn first next = goOn first later := by
  rcases goOn_cases first with ⟨hends, -⟩ | ⟨flow, after, rfl, hnone⟩
  · rw [hends, hends]
  · rw [goOn_none hnone, goOn_none hnone, h flow hnone]

theorem goOn_assoc :
    goOn (goOn first next) later = goOn first fun flow after => goOn (next flow after) later := by
  rcases goOn_cases first with ⟨hends, -⟩ | ⟨flow, after, rfl, hnone⟩
  · rw [hends, hends, hends]
  · rw [goOn_none hnone, goOn_none hnone]

/-- Where nothing is given back in the end, nothing was given back on the way. -/
theorem goOn_ok (h : goOn first next = (.ok flow, after)) (hflow : flow.returned? = none) :
    ∃ own between, first = (.ok own, between) ∧ own.returned? = none ∧
      next own between = (.ok flow, after) := by
  rcases goOn_cases first with ⟨hends, hreturned⟩ | ⟨own, between, rfl, hnone⟩
  · rw [hends] at h
    exact absurd hflow (hreturned flow after h)
  · rw [goOn_none hnone] at h
    exact ⟨own, between, rfl, hnone, h⟩

theorem goOn_after {R : Machine → Machine → Prop} (hrefl : ∀ m, R m m)
    (hnext : ∀ flow m, R m (next flow m).2) : R first.2 (goOn first next).2 := by
  rcases goOn_cases first with ⟨hends, -⟩ | ⟨flow, after, rfl, hnone⟩
  · rw [hends]
    exact hrefl first.2
  · rw [goOn_none hnone]
    exact hnext flow after

end Run

namespace Program

open Run (goOn)

variable {base : Nat} {inFunction : Bool} {ctx : Context} {m m' : Machine}

theorem runItems_cons (flow : Flow) (item : Item) (rest : List Item) (m : Machine) :
    Run.runItems base inFunction flow (item :: rest) ctx m =
      goOn (Run.runItem base inFunction item ctx m) fun flow =>
        Run.runItems base inFunction flow rest ctx := by
  rw [Run.runItems, Eval.andThen_apply]
  obtain ⟨result, after⟩ := Run.runItem base inFunction item ctx m
  cases result with
  | error fault => rfl
  | ok flow => cases flow <;> rfl

/-- The items of one line, run one after another. -/
theorem runItems_drives (hctx : ctx.Restores) {units : List Item}
    (hunits : ∀ unit ∈ units, ∀ header body, unit ≠ .declaration header body) (flow : Flow)
    (hflow : flow.returned? = none) {number : Nat} (hline : m.line = number) :
    ((Run.runItems base inFunction flow units ctx m).1.map Flow.returned?,
        (Run.runItems base inFunction flow units ctx m).2) =
      driveAll base inFunction (units.map (number, ·)) ctx m := by
  induction units generalizing flow m with
  | nil => exact Prod.ext (congrArg Except.ok hflow) rfl
  | cons unit rest ih =>
    have hplace : { m with line := number } = m := by rw [← hline]
    have hdrive := @drive_apply base inFunction ctx number unit m
    have hafter := (Run.runItem_line hctx base inFunction
      (hunits unit List.mem_cons_self)).apply m
    rw [hplace] at hdrive
    rw [runItems_cons]
    show _ = followedBy (drive base inFunction (number, unit))
      (driveAll base inFunction (rest.map (number, ·))) ctx m
    rw [followedBy_apply, hdrive]
    cases hrun : Run.runItem base inFunction unit ctx m with
    | mk result after =>
      rw [hrun] at hafter
      cases result with
      | error fault => rfl
      | ok flow =>
        cases hreturned : flow.returned? with
        | some value =>
          dsimp only [goOn, Except.map]
          rw [hreturned]
          rfl
        | none =>
          dsimp only [goOn, Except.map]
          rw [hreturned]
          exact ih (fun unit hmem => hunits unit (List.mem_cons_of_mem _ hmem)) flow hreturned
            (hafter.trans hline)

theorem returned_failed (failed : Prop) [Decidable failed] {flow : Flow}
    (h : flow.returned? = none) : (if failed then Flow.error else flow).returned? = none := by
  split
  · rfl
  · exact h

/-- Whether a line failed does not show in what it gave back. -/
theorem runLine_returned (items : List Item) (m : Machine) :
    ((Run.runLine base inFunction items ctx m).1.map Flow.returned?,
        (Run.runLine base inFunction items ctx m).2) =
      ((Run.runItems base inFunction .nothing items ctx m).1.map Flow.returned?,
        (Run.runItems base inFunction .nothing items ctx m).2) := by
  unfold Run.runLine
  rw [Eval.andThen_apply, Eval.machine_apply]
  dsimp only
  rw [Eval.andThen_apply]
  obtain ⟨result, after⟩ := Run.runItems base inFunction .nothing items ctx m
  cases result with
  | error fault => rfl
  | ok flow =>
    cases flow with
    | giveBack value => rfl
    | _ => exact Prod.ext (congrArg Except.ok (returned_failed _ rfl)) rfl

theorem runScript_cons (flow : Flow) (number : Nat) (units : List Item) (rest : Script)
    (m : Machine) :
    Run.runScript base inFunction flow (⟨number, .ok units⟩ :: rest) ctx m =
      goOn (Run.runLine base inFunction units ctx { m with line := number }) fun flow =>
        Run.runScript base inFunction flow rest ctx := by
  rw [Run.runScript, Eval.andThen_apply, Eval.update_apply]
  dsimp only
  rw [Eval.andThen_apply]
  obtain ⟨result, after⟩ := Run.runLine base inFunction units ctx { m with line := number }
  cases result with
  | error fault => rfl
  | ok flow => cases flow <;> rfl

/-- A script runs as its items do, each in its line. -/
theorem runScript_drives (hctx : ctx.Restores) {script : Script} {items : List Placed}
    (h : Places script items) (flow : Flow) (hflow : flow.returned? = none) (line : Nat)
    (m : Machine) :
    (Run.runScript base inFunction flow script ctx m).1.map Flow.returned? =
        (driveAll base inFunction items ctx { m with line }).1 ∧
      (driveAll base inFunction items ctx { m with line }).2.Like
        (Run.runScript base inFunction flow script ctx m).2 := by
  induction h generalizing flow line m with
  | nil => exact ⟨congrArg Except.ok hflow, ⟨m.line, m.lastIf, rfl⟩⟩
  | @line number units script items hunits hrest ih =>
    have hline := @runLine_returned base inFunction ctx units { m with line := number }
    rw [runItems_drives hctx hunits .nothing rfl rfl] at hline
    rw [runScript_cons, driveAll_append, followedBy_apply]
    cases units with
    | nil =>
      cases hrun : Run.runLine base inFunction [] ctx { m with line := number } with
      | mk result after =>
        rw [hrun] at hline
        obtain ⟨hresult, rfl⟩ := Prod.mk.inj hline
        cases result with
        | error fault => cases hresult
        | ok flow =>
          have hreturned : flow.returned? = none := Except.ok.inj hresult
          rw [Run.goOn_none hreturned]
          exact ih flow hreturned line { m with line := number }
    | cons unit rest =>
      have hsame : driveAll base inFunction ((unit :: rest).map (number, ·)) ctx { m with line } =
          driveAll base inFunction ((unit :: rest).map (number, ·)) ctx
            { m with line := number } := rfl
      rw [hsame, ← hline]
      obtain ⟨result, after⟩ := Run.runLine base inFunction (unit :: rest) ctx
        { m with line := number }
      cases result with
      | error fault => exact ⟨rfl, .refl after⟩
      | ok flow =>
        dsimp only [goOn, Except.map]
        cases hreturned : flow.returned? with
        | some value => exact ⟨rfl, .refl after⟩
        | none => exact ih flow hreturned after.line after

theorem run_apply (scoping : Scoping) (trees : List Tree) (m : Machine) :
    run scoping inFunction trees ctx m =
      ((execAll scoping inFunction trees ctx m).1,
        (execAll scoping inFunction trees ctx m).2.mapScopes
          (·.truncate m.env.scopes.depth)) := by
  unfold run
  rw [Eval.andThen_apply_ok (show Run.scopes ctx m = (.ok m.env.scopes, m) from rfl),
    Eval.andThen_apply, Eval.attempt_apply]
  obtain ⟨result, after⟩ := execAll scoping inFunction trees ctx m
  cases result <;> rfl

/-- Nothing is reported at the end of lines that closed what they opened. -/
theorem ended_eq {result : Except Fault Flow × Machine} (hbase : base ≠ 0)
    (hdepth : result.1.map Flow.returned? = .ok none → result.2.env.scopes.depth = base) :
    Run.ended base result = result.2 := by
  obtain ⟨flow, after⟩ := result
  have hclosed (h : after.env.scopes.depth = base) :
      after.env.scopes.hasOpenBlock base = false := by
    unfold ScopeStack.hasOpenBlock
    rw [h, Nat.sub_self, List.take_zero, List.any_nil, Bool.or_false]
    exact beq_false_of_ne hbase
  rcases flow with fault | flow
  · rfl
  · cases flow with
    | giveBack value => rfl
    | _ =>
      have hopen := hclosed (hdepth rfl)
      unfold Run.ended
      dsimp only
      rw [hopen]
      rfl

/-- Running the lines of a guarded program does what executing it does, but for the line it ends on
and for what the last `if` did there: it gives back the same or fails with the same fault, and
leaves the same values and scopes, the same output and the same reports. -/
theorem runLines_like_run (hctx : Faithful ctx) {trees : List Tree} (hguarded : GuardedAll trees)
    {lines : List Text.SourceLine} (hlaid : Laid lines (itemsAll trees))
    (hsettled : m.env.scopes.current.awaitingBody = false)
    (hrunning : m.env.scopes.current.skipping = false) :
    (Run.runLines lines inFunction ctx m).1.map Flow.returned? =
        (run .chained inFunction trees ctx m).1 ∧
      (Run.runLines lines inFunction ctx m).2.Like (run .chained inFunction trees ctx m).2 := by
  have hnest : Nest m.env.scopes.depth m.env.scopes := ⟨Nat.le_refl _, .inl rfl, hsettled⟩
  obtain ⟨hresult, hlike, hwithin⟩ := @executeAll m.env.scopes.depth inFunction ctx hctx trees
    hguarded m.env.scopes m m hnest hrunning rfl (.refl m)
  obtain ⟨hscript, hscriptLike⟩ := @runScript_drives m.env.scopes.depth inFunction ctx
    hctx.restores _ _ hlaid.places .nothing rfl m.line m
  have hdepth : (Run.runScript m.env.scopes.depth inFunction .nothing (Script.ofLines lines) ctx
      m).1.map Flow.returned? = .ok none → (Run.runScript m.env.scopes.depth inFunction .nothing
        (Script.ofLines lines) ctx m).2.env.scopes.depth = m.env.scopes.depth := by
    intro hnone
    rw [hscriptLike.scopes]
    exact (hwithin (hscript.symm.trans hnone)).depth
  rw [Run.runLines_apply, run_apply]
  dsimp only
  have hbase : m.env.scopes.depth ≠ 0 := Nat.succ_ne_zero _
  rw [ended_eq hbase hdepth]
  exact ⟨hscript.trans hresult, (hscriptLike.symm.trans hlike).mapScopes _⟩

end Program

end BuildScript
