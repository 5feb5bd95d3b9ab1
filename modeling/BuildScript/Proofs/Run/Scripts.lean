import BuildScript.Proofs.Program.Lines
import BuildScript.Proofs.Run.Surroundings

/-!
Scripts line by line. A script in two parts runs the second one if the first neither returns nor is
unwound, and how a body or file ends depends on what it gives back and on the machine it leaves.
-/

namespace BuildScript.Run

open Text (SourceLine)

variable {base : Nat} {inFunction : Bool} {ctx : Context} {m after : Machine}

/-- Runs one line of a script. -/
def enterLine (base : Nat) (inFunction : Bool) (line : ScriptLine) : Eval Flow := do
  Eval.update fun m => { m with line := line.number }
  match line.items with
  | .error e => do
    Eval.report (.parse e)
    return .error
  | .ok items => runLine base inFunction items

theorem runScript_step (flow : Flow) (line : ScriptLine) (rest : Script) (m : Machine) :
    runScript base inFunction flow (line :: rest) ctx m =
      goOn (enterLine base inFunction line ctx m) fun flow =>
        runScript base inFunction flow rest ctx := by
  obtain ⟨number, items⟩ := line
  cases items with
  | error e => rfl
  | ok items => exact Program.runScript_cons flow number items rest m

/-- A script in two parts. The second one is run if the first neither returns nor is unwound. -/
theorem runScript_append {flow : Flow} (hflow : flow.returned? = none) (front rest : Script)
    (m : Machine) :
    runScript base inFunction flow (front ++ rest) ctx m =
      goOn (runScript base inFunction flow front ctx m) fun flow =>
        runScript base inFunction flow rest ctx := by
  induction front generalizing flow m with
  | nil =>
    have hempty : runScript base inFunction flow [] ctx m = (.ok flow, m) := rfl
    rw [hempty, goOn_none hflow, List.nil_append]
  | cons line front ih =>
    rw [List.cons_append, runScript_step, runScript_step, goOn_assoc]
    exact goOn_congr fun flow hreturned => ih hreturned

/-- Items in two parts. The second one is run if the first neither returns nor is unwound. -/
theorem runItems_append {flow : Flow} (hflow : flow.returned? = none) (front rest : List Item)
    (m : Machine) :
    runItems base inFunction flow (front ++ rest) ctx m =
      goOn (runItems base inFunction flow front ctx m) fun flow =>
        runItems base inFunction flow rest ctx := by
  induction front generalizing flow m with
  | nil =>
    have hempty : runItems base inFunction flow [] ctx m = (.ok flow, m) := rfl
    rw [hempty, goOn_none hflow, List.nil_append]
  | cons item front ih =>
    rw [List.cons_append, Program.runItems_cons, Program.runItems_cons, goOn_assoc]
    exact goOn_congr fun flow hreturned => ih hreturned

/-- What the line before came to does not show in what a script gives back. -/
theorem runScript_flow {flow flow' : Flow} (hflow : flow.returned? = none)
    (hflow' : flow'.returned? = none) (script : Script) (m : Machine) :
    ((runScript base inFunction flow script ctx m).1.map Flow.returned?,
        (runScript base inFunction flow script ctx m).2) =
      ((runScript base inFunction flow' script ctx m).1.map Flow.returned?,
        (runScript base inFunction flow' script ctx m).2) := by
  cases script with
  | nil =>
    refine Prod.ext ?_ rfl
    show Except.ok flow.returned? = Except.ok flow'.returned?
    rw [hflow, hflow']
  | cons line rest => rw [runScript_step, runScript_step]

/-- A line of one item does what the item does. -/
theorem enterLine_item {item : Item} {number : Nat} {flow : Flow}
    (hrun : runItem base inFunction item ctx { m with line := number } = (.ok flow, after))
    (hflow : flow.returned? = none) :
    ∃ flow : Flow, flow.returned? = none ∧
      enterLine base inFunction ⟨number, .ok [item]⟩ ctx m = (.ok flow, after) := by
  have hline := @Program.runLine_returned base inFunction ctx [item] { m with line := number }
  rw [Program.runItems_cons, hrun, goOn_none hflow] at hline
  show ∃ flow : Flow, flow.returned? = none ∧
    runLine base inFunction [item] ctx { m with line := number } = (.ok flow, after)
  generalize runLine base inFunction [item] ctx { m with line := number } = line at hline ⊢
  obtain ⟨result, left⟩ := line
  obtain ⟨hresult, rfl⟩ := Prod.mk.inj hline
  cases result with
  | error fault => cases hresult
  | ok flow' => exact ⟨flow', (Except.ok.inj hresult).trans hflow, rfl⟩

/-- The machine in which the turn of a line comes after the lines before it, unless these return or
are unwound. -/
def reached? (before : List SourceLine) (inFunction : Bool) (ctx : Context) (m : Machine) :
    Option Machine :=
  match runScript m.env.scopes.depth inFunction .nothing (.ofLines before) ctx m with
  | (.ok flow, reached) => if flow.returned?.isNone then some reached else none
  | (.error _, _) => none

theorem runScript_reached {before : List SourceLine} {reached : Machine}
    (h : reached? before inFunction ctx m = some reached) :
    ∃ flow : Flow, flow.returned? = none ∧ ∀ tail,
      runScript m.env.scopes.depth inFunction .nothing (.ofLines before ++ tail) ctx m =
        runScript m.env.scopes.depth inFunction flow tail ctx reached := by
  unfold reached? at h
  split at h
  · rename_i flow after hrun
    cases hreturned : flow.returned? with
    | some value =>
      rw [hreturned] at h
      cases h
    | none =>
      rw [hreturned] at h
      cases h
      refine ⟨flow, hreturned, fun tail => ?_⟩
      rw [runScript_append rfl, hrun, goOn_none hreturned]
  · cases h

theorem runScript_unreached {before : List SourceLine}
    (h : reached? before inFunction ctx m = none) (tail : Script) :
    runScript m.env.scopes.depth inFunction .nothing (.ofLines before ++ tail) ctx m =
      runScript m.env.scopes.depth inFunction .nothing (.ofLines before) ctx m := by
  rw [runScript_append rfl]
  unfold reached? at h
  split at h
  · rename_i flow after hrun
    rw [hrun]
    cases flow with
    | giveBack value => rfl
    | _ => cases h
  · rename_i hrun
    rw [hrun]
    rfl

/-- The end of a body or file, reported if something was left open. -/
def concluded (base : Nat) (result : Except Fault Flow × Machine) : Except Fault Flow × Machine :=
  (result.1, (ended base result).mapScopes (·.truncate base))

/-- How a body ends depends on what it gives back and on the machine. -/
theorem ended_returned (base : Nat) (result : Except Fault Flow × Machine) :
    ended base result = match result.1.map Flow.returned? with
      | .ok none =>
        if result.2.env.scopes.hasOpenBlock base then result.2.report (.eval .unterminatedBlock)
        else result.2
      | _ => result.2 := by
  obtain ⟨flow, after⟩ := result
  rcases flow with fault | flow
  · rfl
  · cases flow <;> rfl

theorem concluded_same {result result' : Except Fault Flow × Machine}
    (h : (result.1.map Flow.returned?, result.2) = (result'.1.map Flow.returned?, result'.2)) :
    ((concluded base result).1.map Flow.returned?, (concluded base result).2) =
      ((concluded base result').1.map Flow.returned?, (concluded base result').2) := by
  obtain ⟨hreturned, hafter⟩ := Prod.mk.inj h
  unfold concluded
  rw [ended_returned, ended_returned, hreturned, hafter]

theorem runLines_concluded (lines : List SourceLine) :
    runLines lines inFunction ctx m = concluded m.env.scopes.depth
      (runScript m.env.scopes.depth inFunction .nothing (.ofLines lines) ctx m) :=
  runLines_apply lines inFunction m

/-- What lines come to, from the first line on that the ones before it lead to. -/
theorem runLines_reached {before lines : List SourceLine} {line : ScriptLine} {rest : Script}
    (hlines : Script.ofLines lines = .ofLines before ++ line :: rest) {reached left : Machine}
    {flow : Flow} (hreached : reached? before inFunction ctx m = some reached)
    (hflow : flow.returned? = none)
    (henter : enterLine m.env.scopes.depth inFunction line ctx reached = (.ok flow, left)) :
    runLines lines inFunction ctx m = concluded m.env.scopes.depth
      (runScript m.env.scopes.depth inFunction flow rest ctx left) := by
  obtain ⟨flow', hflow', hscript⟩ := runScript_reached hreached
  rw [runLines_concluded, hlines, hscript, runScript_step, henter, goOn_none hflow]

/-- Lines that are not reached do nothing. -/
theorem runLines_unreached {before lines : List SourceLine} {rest : Script}
    (hlines : Script.ofLines lines = .ofLines before ++ rest)
    (hunreached : reached? before inFunction ctx m = none) :
    runLines lines inFunction ctx m = runLines before inFunction ctx m := by
  rw [runLines_concluded, runLines_concluded, hlines, runScript_unreached hunreached]

end BuildScript.Run
