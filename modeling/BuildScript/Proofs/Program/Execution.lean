import BuildScript.Proofs.Evaluation.Blind
import BuildScript.Proofs.Program.Skipping
import BuildScript.Proofs.Run.Surroundings

/-!
Running the units of a program executes its statements. The state that the units are run in has the
nesting only in the flags of its scopes and in what the last `if` did; statement by statement it
stays what the recursive meaning has, up to the line and that memory.
-/

namespace BuildScript.Program

open Eval (Keeps Blind)
open Machine (Undisturbed)

variable {α : Type} {base : Nat} {inFunction : Bool} {ctx : Context} {m m' : Machine}
  {nest : ScopeStack} {above : List Scope}

/-- A context whose evaluations restore their surroundings and do not see what the last `if` did. -/
structure Faithful (ctx : Context) : Prop where
  blind : Eval.Steps (Blind ctx)
  restores : ctx.Restores

/-- An evaluation that does the same on machines that are alike. -/
def Even (ctx : Context) (x : Eval α) : Prop :=
  ∀ {m m' : Machine}, m.Like m' → (x ctx m).1 = (x ctx m').1 ∧
    (x ctx m).2.Like (x ctx m').2 ∧ m.env.scopes.Within (x ctx m).2.env.scopes

theorem even_atLine (line : Nat) {x : Eval α} (hblind : Blind ctx x)
    (hkeeps : Keeps Undisturbed ctx x) : Even ctx (atLine line >>= fun _ => x) := by
  intro m m' hlike
  obtain ⟨line', outcome, rfl⟩ := hlike
  have hscopes := (hkeeps.apply { m with line }).scopes
  have hsame := hblind.apply { m with line } outcome
  refine ⟨?_, ?_, hscopes⟩
  · exact (congrArg Prod.fst hsame).symm
  · refine ⟨(x ctx { m with line }).2.line, outcome, ?_⟩
    exact congrArg Prod.snd hsame

theorem Faithful.statements (h : Faithful ctx) :
    Run.Statements (Blind ctx) ∧ Run.Statements (Keeps Undisturbed ctx) :=
  ⟨.of_steps h.blind, .of_steps (Eval.undisturbed_effects h.restores).steps⟩

theorem even_perform (h : Faithful ctx) (line : Nat) (expr : Expr) :
    Even ctx (perform line expr) := by
  obtain ⟨hblind, hkeeps⟩ := h.statements
  refine even_atLine line ?_ ?_
  · exact hblind.bind (hblind.guarded (hblind.expressionFlow expr)) fun _ => hblind.pure _
  · exact hkeeps.bind (hkeeps.guarded (hkeeps.expressionFlow expr)) fun _ => hkeeps.pure _

theorem even_holds (h : Faithful ctx) (line : Nat) (condition : Except SyntaxError Expr) :
    Even ctx (holds line condition) := by
  obtain ⟨hblind, hkeeps⟩ := h.statements
  refine even_atLine line ?_ ?_
  · refine hblind.bind (hblind.attempt (hblind.conditionHolds condition)) fun result => ?_
    split
    · exact hblind.pure _
    · exact hblind.bind (hblind.recover _) fun _ => hblind.pure _
  · refine hkeeps.bind (hkeeps.attempt (hkeeps.conditionHolds condition)) fun result => ?_
    split
    · exact hkeeps.pure _
    · exact hkeeps.bind (hkeeps.recover _) fun _ => hkeeps.pure _

theorem even_giveBack (h : Faithful ctx) (line : Nat)
    (expr : Option (Except SyntaxError Expr)) : Even ctx (giveBack inFunction line expr) := by
  obtain ⟨hblind, hkeeps⟩ := h.statements
  refine even_atLine line ?_ ?_
  · cases inFunction with
    | true => exact hblind.bind (hblind.returned expr) fun _ => hblind.pure _
    | false => exact hblind.bind (hblind.recover _) fun _ => hblind.pure _
  · cases inFunction with
    | true => exact hkeeps.bind (hkeeps.returned expr) fun _ => hkeeps.pure _
    | false => exact hkeeps.bind (hkeeps.recover _) fun _ => hkeeps.pure _

/-- The machine runs a statement above a nest, its innermost scope settled. -/
structure Running (base : Nat) (nest : ScopeStack) (above : List Scope) (m : Machine) : Prop where
  isNest : Nest base nest
  running : nest.current.skipping = false
  scopes : m.env.scopes = nest.over above
  live : ∀ scope ∈ above, Live scope
  settled : m.env.scopes.current.awaitingBody = false

namespace Running

theorem single (h : Running base nest above m) : ∀ scope ∈ above, scope.singleLine = true :=
  fun scope hmem => (h.live scope hmem).singleLine

theorem skipping (h : Running base nest above m) : m.env.scopes.current.skipping = false := by
  rw [h.scopes]
  cases above with
  | nil => exact h.running
  | cons scope rest => exact (h.live scope List.mem_cons_self).running

/-- The line and the last `if` have no part in it. -/
theorem place (h : Running base nest above m) (line : Nat) (outcome : Option Bool) :
    Running base nest above { m with line, lastIf := outcome } :=
  ⟨h.isNest, h.running, h.scopes, h.live, h.settled⟩

/-- An evaluation changes bindings only. -/
theorem within (h : Running base nest above m)
    (hwithin : m.env.scopes.Within m'.env.scopes) :
    ∃ nest' above', Running base nest' above' m' ∧ nest.Within nest' ∧
      above'.map (·.state) = above.map (·.state) := by
  have hsettled := hwithin.current.settled h.settled
  rw [h.scopes] at hwithin
  cases above with
  | nil =>
    have hnest : nest.Within m'.env.scopes := hwithin
    exact ⟨m'.env.scopes, [], ⟨h.isNest.within hnest, hnest.current.skipping.trans h.running, rfl,
      List.forall_mem_nil _, hsettled⟩, hnest, rfl⟩
  | cons scope rest =>
    cases hstack : m'.env.scopes with
    | mk inner names =>
      rw [hstack] at hwithin
      cases hwithin with
      | @inner _ scope' hkeeps =>
        have hscope := h.live scope List.mem_cons_self
        have hwaiting : scope.isWaiting = false := by
          have hawaiting := h.settled
          rw [h.scopes] at hawaiting
          unfold Scope.isWaiting
          rw [show scope.awaitingBody = false from hawaiting, Bool.and_false]
        refine ⟨nest, scope' :: rest, ⟨h.isNest, h.running, hstack, ?_, hsettled⟩, .refl nest, ?_⟩
        · intro other hmem
          rcases List.mem_cons.mp hmem with rfl | hmem
          · refine ⟨(hkeeps.singleLine hwaiting).trans hscope.singleLine,
              hkeeps.skipping.trans hscope.running, ?_⟩
            rw [hkeeps.state]
            exact hscope.state
          · exact h.live other (List.mem_cons_of_mem _ hmem)
        · rw [List.map_cons, List.map_cons, hkeeps.state]

/-- A body that waits above the nest begins with an item that is no brace. -/
theorem of_waiting (hnest : Nest base nest) (hrunning : nest.current.skipping = false)
    (hscopes : m.env.scopes = nest.over above) (hlive : ∀ scope ∈ above, Live scope) :
    Running base nest (settle above) (m.mapScopes (·.begun)) where
  isNest := hnest
  running := hrunning
  scopes := by
    show m.env.scopes.begun = _
    rw [hscopes, begun_over hnest]
  live := by
    cases above with
    | nil => exact hlive
    | cons scope rest =>
      intro other hmem
      have hscope := hlive scope List.mem_cons_self
      rcases List.mem_cons.mp hmem with rfl | hmem
      · exact ⟨hscope.singleLine, hscope.running, hscope.state⟩
      · exact hlive other (List.mem_cons_of_mem _ hmem)
  settled := by
    show m.env.scopes.begun.current.awaitingBody = false
    rw [hscopes, begun_over hnest]
    cases above with
    | nil => exact hnest.settled
    | cons scope rest => rfl

/-- Opens a branch above. -/
theorem push (h : Running base nest above m) {state : BlockState}
    (hstate : state = .ifBody ∨ state = .elseBody) :
    ∃ scope, m.env.scopes.push (.conditional state) = nest.over (scope :: above) ∧
      scope.state = state ∧ scope.isWaiting = true ∧ ∀ other ∈ scope :: above, Live other := by
  have hskipped : state.isSkipped = false := by
    rcases hstate with rfl | rfl <;> rfl
  refine ⟨{ Scope.conditional state with
    skipping := state.isSkipped || m.env.scopes.current.skipping }, ?_, rfl, rfl, ?_⟩
  · rw [h.scopes]
    rfl
  · intro other hmem
    rcases List.mem_cons.mp hmem with rfl | hmem
    · refine ⟨rfl, ?_, hstate⟩
      dsimp only
      rw [hskipped, h.skipping]
      rfl
    · exact h.live other hmem

end Running

/-- Running the units of a statement against executing it: the same result, machines that are alike,
and the nest as before unless the statement returned. -/
structure Agrees (nest : ScopeStack) (units tree : Except Fault Outcome × Machine) : Prop where
  result : units.1 = tree.1
  like : units.2.Like tree.2
  within : units.1 = .ok none → nest.Within units.2.env.scopes

/-- What a running branch says about an `else` after it: the first branch of an `if`, that the `if`
was true; the second branch, that no `if` is left for it. -/
structure Says.Branch (above : List Scope) (lastIf : Option Bool) : Prop where
  first : ∀ scope rest, above = scope :: rest → scope.state = .ifBody → lastIf = some true
  second : ∀ scope, above = [scope] → scope.state = .elseBody → lastIf = none

theorem Says.Branch.of_states {above' : List Scope} {lastIf : Option Bool}
    (h : Says.Branch above lastIf) (hstates : above'.map (·.state) = above.map (·.state)) :
    Says.Branch above' lastIf where
  first scope' rest' habove' hstate := by
    subst habove'
    cases above with
    | nil => cases hstates
    | cons scope rest =>
      rw [List.map_cons, List.map_cons, List.cons.injEq] at hstates
      exact h.first scope rest rfl (hstates.1 ▸ hstate)
  second scope' habove' hstate := by
    subst habove'
    rcases above with _ | ⟨scope, _ | ⟨other, rest⟩⟩
    · cases hstates
    · rw [List.map_singleton, List.map_singleton, List.cons.injEq] at hstates
      exact h.second scope rfl (hstates.1 ▸ hstate)
    · simp at hstates

theorem Says.Branch.of_finished (above : List Scope) :
    Says.Branch above (through above none) where
  first scope rest habove hstate := by
    subst habove
    show through rest (Run.outcomeThrough scope.state none) = some true
    rw [hstate]
    exact through_some_true rest
  second scope habove hstate := by
    subst habove
    show Run.outcomeThrough scope.state none = none
    rw [hstate]
    rfl

/-- Closing to the depth of a nest takes off what lies above it. -/
theorem truncate_nest (hscopes : m.env.scopes = nest.over above) {depth : Nat}
    (hdepth : depth = nest.depth) : m.mapScopes (·.truncate depth) = m.withScopes nest := by
  show m.withScopes (m.env.scopes.truncate depth) = _
  rw [hscopes, hdepth, truncate_over]

/-- Both ways to finish a statement return to the nest. -/
theorem conclude (h : Running base nest above m) (hlike : m.Like m') {x : Eval Outcome}
    (heven : Even ctx x) :
    Agrees nest (concluding base x ctx m) (closing nest.depth x ctx m') ∧
      ((concluding base x ctx m).1 = .ok none →
        Says.Branch above (concluding base x ctx m).2.lastIf) := by
  obtain ⟨hresult, hafter, hwithin⟩ := heven hlike
  obtain ⟨nest', above', hrunning, hnest, hstates⟩ := h.within hwithin
  unfold concluding closing
  rw [followedBy_apply, followedBy_apply]
  cases hx : x ctx m with
  | mk result after =>
    cases hx' : x ctx m' with
    | mk result' after' =>
      rw [hx, hx'] at hresult hafter
      rw [hx] at hrunning
      cases hresult
      rcases result with fault | _ | value
      · exact ⟨⟨rfl, hafter, nofun⟩, nofun⟩
      · have hfinish := finished_over hrunning.isNest hrunning.single hrunning.scopes none
        have hclose := truncate_nest (hafter.scopes.trans hrunning.scopes) hnest.depth.symm
        refine ⟨⟨rfl, ?_, ?_⟩, ?_⟩
        · show (finished base none after).Like (after'.mapScopes (·.truncate nest.depth))
          rw [hfinish, hclose]
          exact (Machine.Like.place _ _ _).symm.trans (hafter.withScopes nest')
        · intro _
          show nest.Within (finished base none after).env.scopes
          rw [hfinish]
          exact hnest
        · intro _
          show Says.Branch above (finished base none after).lastIf
          rw [hfinish]
          exact (Says.Branch.of_finished above').of_states hstates.symm
      · exact ⟨⟨rfl, hafter, nofun⟩, nofun⟩

/-- An item other than a brace settles its scope first. -/
theorem drive_begun {item : Item} (hitem : item ≠ .blockOpen) (line : Nat) (m : Machine) :
    drive base inFunction (line, item) ctx m =
      drive base inFunction (line, item) ctx (m.mapScopes (·.begun)) := by
  have hagain : m.env.scopes.begun.begun = m.env.scopes.begun := by
    obtain ⟨inner, names⟩ := m.env.scopes
    cases inner <;> rfl
  have hbegin : Run.beginItem item ctx { m.mapScopes (·.begun) with line } =
      Run.beginItem item ctx { m with line } := by
    rw [beginItem_apply hitem, beginItem_apply hitem]
    unfold Machine.mapScopes
    dsimp only
    rw [hagain]
  rw [drive_apply, drive_apply]
  unfold Run.runItem
  rw [Eval.andThen_apply, Eval.andThen_apply, hbegin]

theorem driveAll_error {placed : Placed} {rest : List Placed} {fault : Fault} {after : Machine}
    (h : drive base inFunction placed ctx m = (.error fault, after)) :
    driveAll base inFunction (placed :: rest) ctx m = (.error fault, after) := by
  show followedBy _ _ ctx m = _
  rw [followedBy_apply, h]

theorem driveAll_one (placed : Placed) (m : Machine) :
    driveAll base inFunction [placed] ctx m = drive base inFunction placed ctx m := by
  show followedBy (drive base inFunction placed) (pure none) ctx m = _
  rw [followedBy_apply]
  obtain ⟨result, after⟩ := drive base inFunction placed ctx m
  rcases result with fault | _ | value <;> rfl

/-- A condition comes out alike on machines that are alike, and opens the branch it selects. -/
theorem drive_test (hctx : Faithful ctx) (h : Running base nest above (m.mapScopes (·.begun)))
    (hlike : (m.mapScopes (·.begun)).Like m') (line : Nat)
    (condition : Except SyntaxError Expr) :
    (∃ fault after after', drive base inFunction (line, .condition condition) ctx m =
        (.error fault, after) ∧ holds line condition ctx m' = (.error fault, after') ∧
        after.Like after') ∨
      ∃ result after after' nest' above',
        drive base inFunction (line, .condition condition) ctx m = (.ok none,
          after.mapScopes (·.push (.conditional (if result then .ifBody else .skippedIf)))) ∧
        holds line condition ctx m' = (.ok result, after') ∧ after.Like after' ∧
        Running base nest' above' after ∧ nest.Within nest' := by
  let start := { m.mapScopes (·.begun) with lastIf := none }
  have hstart : start.Like m' := (Machine.Like.place _ m.line none).symm.trans hlike
  have hrunning : Running base nest above start := h.place m.line none
  have hdrive : drive base inFunction (line, .condition condition) ctx m =
      openIf line condition ctx start :=
    (@drive_begun base inFunction ctx (.condition condition) nofun line m).trans
      (drive_condition h.settled h.skipping line condition)
  obtain ⟨hresult, hafter, hwithin⟩ := even_holds hctx line condition hstart
  obtain ⟨nest', above', hrunning', hnest, -⟩ := hrunning.within hwithin
  unfold openIf at hdrive
  rw [Eval.andThen_apply] at hdrive
  cases hx : holds line condition ctx start with
  | mk result after =>
    cases hx' : holds line condition ctx m' with
    | mk result' after' =>
      rw [hx, hx'] at hresult hafter
      rw [hx] at hrunning' hdrive
      cases hresult
      cases result with
      | error fault => exact .inl ⟨fault, after, after', hdrive, rfl, hafter⟩
      | ok result =>
        exact .inr ⟨result, after, after', nest', above', hdrive, rfl, hafter, hrunning', hnest⟩

/-- What the first item of a statement makes of the stack. -/
def arrive (braced : Bool) (stack : ScopeStack) : ScopeStack :=
  if braced then stack.opened else stack.begun

theorem arrive_push (stack : ScopeStack) (state : BlockState) (braced : Bool) :
    arrive braced (stack.push (.conditional state)) = stack.push (branchScope state braced) := by
  cases braced <;> rfl

theorem Agrees.of_within {nest' : ScopeStack} {units tree : Except Fault Outcome × Machine}
    (h : Agrees nest' units tree) (hnest : nest.Within nest') : Agrees nest units tree :=
  ⟨h.result, h.like, fun hnone => hnest.trans (h.within hnone)⟩

theorem Agrees.followedBy {x x' y y' : Eval Outcome} (h : Agrees nest (x ctx m) (x' ctx m'))
    (hnext : ∀ after after', x ctx m = (.ok none, after) → after.Like after' →
      nest.Within after.env.scopes → Agrees nest (y ctx after) (y' ctx after')) :
    Agrees nest (followedBy x y ctx m) (followedBy x' y' ctx m') := by
  obtain ⟨hresult, hlike, hwithin⟩ := h
  rw [followedBy_apply, followedBy_apply]
  cases hx : x ctx m with
  | mk result after =>
    cases hx' : x' ctx m' with
    | mk result' after' =>
      rw [hx, hx'] at hresult hlike
      rw [hx] at hwithin
      cases hresult
      rcases result with fault | _ | value
      · exact ⟨rfl, hlike, nofun⟩
      · exact hnext after after' hx hlike (hwithin rfl)
      · exact ⟨rfl, hlike, nofun⟩

/-- In a nest whose last branch was skipped, the next one is skipped too or runs. -/
theorem Running.skipped (h : Running base nest above m) :
    Skipped nest (skippedBranch .skippedIf :: above) where
  single := by
    intro scope hmem
    rcases List.mem_cons.mp hmem with rfl | hmem
    · rfl
    · exact h.single scope hmem
  skipping := rfl
  origin := .inr ⟨_, List.mem_cons_self, rfl⟩

theorem enter_like {after after' : Machine} (h : after.Like after') (state : BlockState)
    (braced : Bool) :
    ((after.mapScopes (·.push (.conditional state))).mapScopes (arrive braced)).Like
      (after'.mapScopes (·.push (branchScope state braced))) := by
  have heq : (after.mapScopes (·.push (.conditional state))).mapScopes (arrive braced) =
      after.mapScopes (·.push (branchScope state braced)) := by
    unfold Machine.mapScopes
    dsimp only
    rw [arrive_push]
  rw [heq]
  exact h.mapScopes _

theorem ready_cons {scope : Scope} (h : scope.isWaiting = true) (above : List Scope) :
    Ready (scope :: above) := by
  intro _ _ heq
  cases heq
  exact h

/-- What runs inside a block leaves it the same block. -/
theorem blockNest_within {stack : ScopeStack} (h : (blockNest nest above).Within stack) :
    ∃ block : Scope, stack = nest.over (block :: above.tail) ∧ block.singleLine = false ∧
      block.state = (blockScope nest above).state := by
  have hsingle := blockScope_singleLine nest above
  obtain ⟨inner, names⟩ := stack
  cases h with
  | @inner _ block hkeeps =>
    have hwaiting : (blockScope nest above).isWaiting = false := by
      unfold Scope.isWaiting
      rw [hsingle, Bool.false_and]
    exact ⟨block, rfl, (hkeeps.singleLine hwaiting).trans hsingle, hkeeps.state⟩

/-- A statement that is no branch opens a scope only if it is a block. -/
theorem mapScopes_arrive (hnest : Nest base nest) (hscopes : m.env.scopes = nest)
    (braced : Bool) :
    m.mapScopes (arrive braced) = if braced then m.mapScopes (·.push .block) else m := by
  cases braced with
  | true =>
    show m.withScopes m.env.scopes.opened = m.withScopes (m.env.scopes.push .block)
    rw [hscopes, show nest.opened = blockNest nest [] from @opened_over base nest [] hnest ready_nil]
    rfl
  | false =>
    show m.withScopes m.env.scopes.begun = m
    rw [ScopeStack.begun_eq (hscopes ▸ hnest.settled)]
    rfl

theorem execAll_cons (scoping : Scoping) (tree : Tree) (rest : List Tree) (m : Machine) :
    execAll scoping inFunction (tree :: rest) ctx m =
      followedBy (exec scoping inFunction m.env.scopes.depth tree)
        (execAll scoping inFunction rest) ctx
        (if tree.isBlock then m.mapScopes (·.push .block) else m) := by
  rw [execAll, Eval.andThen_apply]
  cases tree.isBlock <;> rfl

/-- The first branch of an `if` whose condition does not hold is skipped. -/
theorem skip_first (h : Running base nest above m) (tree : Tree) (hguarded : Guarded tree) :
    Passes base inFunction ctx nest (m.mapScopes (·.push (.conditional .skippedIf))) (items tree)
      fun lastIf => tree.isIf = false → lastIf = some false := by
  have hscopes : (m.mapScopes (·.push (.conditional .skippedIf))).env.scopes =
      nest.over (skippedBranch .skippedIf :: above) := by
    show m.env.scopes.push _ = _
    rw [h.scopes]
    rfl
  obtain ⟨after, hrun, hlike, htold⟩ := skip tree hguarded h.isNest hscopes h.skipped
    (ready_cons rfl above)
  refine ⟨after, hrun, hlike, fun hnot => ?_⟩
  rw [htold hnot _ _ rfl rfl, through_live h.live]

/-- The second branch of an `if` whose condition held is skipped. -/
theorem skip_second (hnest : Nest base nest) (hscopes : m.env.scopes = nest)
    (hlast : m.lastIf = some true) (line : Nat) (tree : Tree) (hguarded : Guarded tree) :
    Passes base inFunction ctx nest m ((line, .elseMark) :: items tree) fun _ => True := by
  have helse := @drive_else_skipped base inFunction ctx m nest hnest hscopes (.inr hlast) line
  obtain ⟨after, hrun, hlike, -⟩ := skip tree hguarded hnest (Machine.withScopes_scopes _ _)
    (skipped_else nest) (ready_cons rfl [])
  refine ⟨after, (driveAll_cons helse).trans hrun, ?_, trivial⟩
  obtain ⟨line', outcome, rfl⟩ := hlike
  exact ⟨line', outcome, rfl⟩

/-- The second branch of an `if` whose condition did not hold runs. -/
theorem drive_else_live (h : Running base nest [] m) (hlast : m.lastIf = some false)
    (line : Nat) :
    drive base inFunction (line, .elseMark) ctx m =
      (.ok none, { m with line, lastIf := none }.mapScopes
        (·.push (.conditional .elseBody))) := by
  have hsome : m.lastIf.isSome = true := by rw [hlast]; rfl
  have hbegun : m.env.scopes.begun = m.env.scopes := ScopeStack.begun_eq h.settled
  rw [drive_else (.inr hsome), h.skipping, hlast]
  unfold Machine.mapScopes
  dsimp only
  rw [hbegun]
  rfl

/-- The machine comes to a statement in running code, above a nest. -/
structure Arriving (base : Nat) (nest : ScopeStack) (above : List Scope) (m : Machine) : Prop where
  isNest : Nest base nest
  running : nest.current.skipping = false
  scopes : m.env.scopes = nest.over above
  live : ∀ scope ∈ above, Live scope
  ready : Ready above

/-- Comes to a branch that was just opened. -/
theorem Running.branch (h : Running base nest above m) {state : BlockState}
    (hstate : state = .ifBody ∨ state = .elseBody) :
    ∃ scope, Arriving base nest (scope :: above) (m.mapScopes (·.push (.conditional state))) ∧
      scope.state = state := by
  obtain ⟨scope, hpush, hscope, hwaiting, hlive⟩ := h.push hstate
  exact ⟨scope, ⟨h.isNest, h.running, hpush, hlive, ready_cons hwaiting above⟩, hscope⟩

/-- Comes to the next statement of a block, or of the whole program. -/
theorem Arriving.next (hnest : Nest base nest) (hrunning : nest.current.skipping = false)
    (hscopes : m.env.scopes = nest) : Arriving base nest [] m :=
  ⟨hnest, hrunning, hscopes, List.forall_mem_nil _, ready_nil⟩

/-- Running the units of a statement in running code executes it. One that is no `if` tells an `else`
after it what the branch that it is would. -/
def Executes (base : Nat) (inFunction : Bool) (ctx : Context) (tree : Tree) : Prop :=
  ∀ ⦃nest : ScopeStack⦄ ⦃above : List Scope⦄ ⦃m m' : Machine⦄, Arriving base nest above m →
    (m.mapScopes (arrive tree.isBlock)).Like m' →
    Agrees nest (driveAll base inFunction (items tree) ctx m)
        (exec .chained inFunction nest.depth tree ctx m') ∧
      ((driveAll base inFunction (items tree) ctx m).1 = .ok none → tree.isIf = false →
        Says.Branch above (driveAll base inFunction (items tree) ctx m).2.lastIf)

/-- Running the units of statements one after another executes them. -/
def ExecutesAll (base : Nat) (inFunction : Bool) (ctx : Context) (trees : List Tree) : Prop :=
  ∀ ⦃nest : ScopeStack⦄ ⦃m m' : Machine⦄, Nest base nest → nest.current.skipping = false →
    m.env.scopes = nest → m.Like m' →
    Agrees nest (driveAll base inFunction (itemsAll trees) ctx m)
      (execAll .chained inFunction trees ctx m')

namespace Executes

/-- A statement of one unit does what the unit does in a settled scope. -/
theorem single {tree : Tree} {line : Nat} {item : Item} {x : Eval Outcome}
    (hitems : items tree = [(line, item)]) (hitem : item ≠ .blockOpen)
    (hblock : tree.isBlock = false)
    (hexec : ∀ depth, exec .chained inFunction depth tree = closing depth x)
    (hdrive : ∀ {m : Machine}, m.env.scopes.current.awaitingBody = false →
      m.env.scopes.current.skipping = false →
        drive base inFunction (line, item) ctx m = concluding base x ctx m)
    (heven : Even ctx x) : Executes base inFunction ctx tree := by
  intro nest above m m' ⟨hnest, hrunning, hscopes, hlive, _⟩ hlike
  have hbegun := Running.of_waiting hnest hrunning hscopes hlive
  rw [hblock] at hlike
  obtain ⟨hagrees, htold⟩ := conclude hbegun hlike heven
  rw [hitems, driveAll_one, drive_begun hitem, hdrive hbegun.settled hbegun.skipping, hexec]
  refine ⟨hagrees, fun hnone _ => (htold hnone).of_states ?_⟩
  cases above <;> rfl

theorem expression (hctx : Faithful ctx) (line : Nat) (expr : Expr) :
    Executes base inFunction ctx (.expression line expr) :=
  single (show items (.expression line expr) = [(line, .expression expr)] by rw [items]) nofun rfl
    (fun depth => by rw [exec])
    (fun hsettled hrunning => drive_expression hsettled hrunning line expr)
    (even_perform hctx line expr)

theorem giveBack (hctx : Faithful ctx) (line : Nat) (expr : Option (Except SyntaxError Expr)) :
    Executes base inFunction ctx (.giveBack line expr) :=
  single (show items (.giveBack line expr) = [(line, .giveBack expr)] by rw [items]) nofun rfl
    (fun depth => by rw [exec])
    (fun hsettled hrunning => drive_giveBack hsettled hrunning line expr)
    (even_giveBack hctx line expr)

/-- The brace that closes a block returns to the nest and says what the block was a branch of. -/
theorem close {after after' : Machine} (hnest : Nest base nest)
    (hsingle : ∀ scope ∈ above, scope.singleLine = true) (hafter : after.Like after')
    (hwithin : (blockNest nest above).Within after.env.scopes) (last : Nat) :
    Agrees nest (driveAll base inFunction [(last, .blockClose)] ctx after)
        (closing nest.depth (pure none) ctx after') ∧
      Says.Branch above (driveAll base inFunction [(last, .blockClose)] ctx after).2.lastIf := by
  obtain ⟨block, hblock, hsingleLine, hstate⟩ := blockNest_within hwithin
  have hdrive := @drive_close base inFunction ctx after nest above hnest hsingle block hblock
    hsingleLine last
  have hclose := @truncate_nest after' nest (block :: above.tail) (hafter.scopes.trans hblock) _ rfl
  show Agrees nest _ (.ok none, after'.mapScopes (·.truncate nest.depth)) ∧ _
  rw [driveAll_single hdrive, hclose]
  refine ⟨⟨rfl, ?_, fun _ => .refl nest⟩, ⟨?_, ?_⟩⟩
  · exact (Machine.Like.place _ _ _).symm.trans (hafter.withScopes nest)
  · intro scope rest habove hscope
    subst habove
    show through rest (Run.blockOutcome block.state) = some true
    rw [hstate, show (blockScope nest (scope :: rest)).state = scope.state from rfl, hscope]
    exact through_some_true rest
  · intro scope habove hscope
    subst habove
    show Run.blockOutcome block.state = none
    rw [hstate, show (blockScope nest [scope]).state = scope.state from rfl, hscope]
    rfl

theorem block {body : List Tree} (hbody : ExecutesAll base inFunction ctx body)
    (first last : Nat) : Executes base inFunction ctx (.block first body last) := by
  intro nest above m m' ⟨hnest, hrunning, hscopes, hlive, hready⟩ hlike
  have hopened : ({ m with line := first, lastIf := none }.mapScopes (·.opened)).env.scopes =
      blockNest nest above := by
    show m.env.scopes.opened = _
    rw [hscopes, opened_over hnest hready]
  have hrun : (blockNest nest above).current.skipping = false := by
    cases above with
    | nil => exact hrunning
    | cons scope rest => exact (hlive scope List.mem_cons_self).running
  have hstart : ({ m with line := first, lastIf := none }.mapScopes (·.opened)).Like m' :=
    (Machine.Like.place _ m.line m.lastIf).trans hlike
  obtain ⟨hresult, hafter, hwithin⟩ := hbody (hnest.block above) hrun hopened hstart
  unfold items exec closing
  rw [driveAll_cons (drive_blockOpen first m), driveAll_append, followedBy_apply, followedBy_apply]
  cases hx : driveAll base inFunction (itemsAll body) ctx
      ({ m with line := first, lastIf := none }.mapScopes (·.opened)) with
  | mk result after =>
    cases hx' : execAll .chained inFunction body ctx m' with
    | mk result' after' =>
      rw [hx, hx'] at hresult hafter
      rw [hx] at hwithin
      cases hresult
      rcases result with fault | _ | value
      · exact ⟨⟨rfl, hafter, nofun⟩, nofun⟩
      · obtain ⟨hagrees, htold⟩ := close hnest (fun scope hmem => (hlive scope hmem).singleLine)
          hafter (hwithin rfl) last
        exact ⟨hagrees, fun _ _ => htold⟩
      · exact ⟨⟨rfl, hafter, nofun⟩, nofun⟩

theorem ifOnly (hctx : Faithful ctx) {body : Tree} (hguarded : Guarded body)
    (hbody : Executes base inFunction ctx body) (line : Nat)
    (condition : Except SyntaxError Expr) :
    Executes base inFunction ctx (.ifOnly line condition body) := by
  intro nest above m m' ⟨hnest, hrunning, hscopes, hlive, _⟩ hlike
  have hbegun := Running.of_waiting hnest hrunning hscopes hlive
  refine ⟨?_, nofun⟩
  unfold items exec
  rw [Eval.andThen_apply]
  rcases drive_test hctx hbegun hlike line condition with
    ⟨fault, after, after', hdrive, hholds, hafter⟩ |
    ⟨result, after, after', nest', above', hdrive, hholds, hafter, hrun, hnest'⟩
  · rw [driveAll_error hdrive, hholds]
    exact ⟨rfl, hafter, nofun⟩
  · rw [driveAll_cons hdrive, hholds]
    dsimp only
    cases result with
    | true =>
      obtain ⟨scope, harrive, -⟩ := hrun.branch (.inl rfl)
      obtain ⟨hagrees, -⟩ := hbody harrive (enter_like hafter .ifBody body.isBlock)
      rw [hnest'.depth] at hagrees
      exact hagrees.of_within hnest'
    | false =>
      obtain ⟨final, hskip, hfinal, -⟩ := skip_first hrun body hguarded
      have hclose := truncate_nest (hafter.scopes.trans hrun.scopes) hnest'.depth.symm
      show Agrees nest (driveAll base inFunction (items body) ctx
        (after.mapScopes (·.push (.conditional .skippedIf))))
        (.ok none, after'.mapScopes (·.truncate nest.depth))
      rw [hskip, hclose]
      refine ⟨rfl, hfinal.symm.trans (hafter.withScopes nest'), fun _ => ?_⟩
      rw [hfinal.scopes]
      exact hnest'

section Branches

variable {after after' : Machine} {nest' : ScopeStack} {above' : List Scope} {body otherwise : Tree}
  (hrun : Running base nest' above' after) (hnest' : nest.Within nest') (hafter : after.Like after')
include hrun hnest' hafter

/-- The condition held: the first branch runs and the second is skipped. -/
theorem firstBranch (hnot : body.isIf = false) (hbody : Executes base inFunction ctx body)
    (hguarded : Guarded otherwise) (elseLine : Nat) :
    Agrees nest (driveAll base inFunction (items body ++ (elseLine, .elseMark) :: items otherwise)
        ctx (after.mapScopes (·.push (.conditional .ifBody))))
      (closing nest.depth (exec .chained inFunction nest.depth body) ctx
        (after'.mapScopes (·.push (branchScope .ifBody body.isBlock)))) := by
  obtain ⟨scope, harrive, hstate⟩ := hrun.branch (.inl rfl)
  obtain ⟨hagrees, htold⟩ := hbody harrive (enter_like hafter .ifBody body.isBlock)
  rw [hnest'.depth] at hagrees
  rw [driveAll_append]
  refine (hagrees.followedBy fun mid mid' hmid hmidLike hwithin => ?_).of_within hnest'
  have hlast : mid.lastIf = some true := by
    rw [hmid] at htold
    exact (htold rfl hnot).first _ _ rfl hstate
  obtain ⟨final, hskip, hfinal, -⟩ := @skip_second base inFunction ctx mid _
    (hrun.isNest.within hwithin) rfl hlast elseLine otherwise hguarded
  have hdepth : nest.depth = mid.env.scopes.depth :=
    hnest'.depth.symm.trans hwithin.depth.symm
  show Agrees nest' _ (.ok none, mid'.mapScopes (·.truncate nest.depth))
  rw [hskip, @truncate_nest mid' mid.env.scopes [] hmidLike.scopes _ hdepth]
  refine ⟨rfl, hfinal.symm.trans (hmidLike.withScopes _), fun _ => ?_⟩
  rw [hfinal.scopes]
  exact hwithin

/-- The condition did not hold: the first branch is skipped and the second runs. -/
theorem secondBranch (hnot : body.isIf = false) (hguarded : Guarded body)
    (hotherwise : Executes base inFunction ctx otherwise) (elseLine : Nat) :
    Agrees nest (driveAll base inFunction (items body ++ (elseLine, .elseMark) :: items otherwise)
        ctx (after.mapScopes (·.push (.conditional .skippedIf))))
      (exec .chained inFunction nest.depth otherwise ctx
        ((after'.mapScopes (·.truncate nest.depth)).mapScopes
          (·.push (branchScope .elseBody otherwise.isBlock)))) := by
  obtain ⟨mid, hskip, hmid, hlast⟩ := @skip_first base inFunction ctx after nest' above' hrun body
    hguarded
  have hnested : Running base nest' [] mid :=
    ⟨hrun.isNest, hrun.running, hmid.scopes, List.forall_mem_nil _, hmid.scopes ▸ hrun.isNest.settled⟩
  have helse := @drive_else_live base inFunction ctx mid nest' hnested (hlast hnot) elseLine
  obtain ⟨scope, harrive, -⟩ := (hnested.place elseLine none).branch (.inr rfl)
  have hclose := truncate_nest (hafter.scopes.trans hrun.scopes) hnest'.depth.symm
  have hstart : { mid with line := elseLine, lastIf := none }.Like
      (after'.mapScopes (·.truncate nest.depth)) := by
    rw [hclose]
    exact ((Machine.Like.place _ _ _).symm.trans hmid.symm).trans (hafter.withScopes nest')
  obtain ⟨hagrees, -⟩ := hotherwise harrive (enter_like hstart .elseBody otherwise.isBlock)
  rw [hnest'.depth] at hagrees
  rw [driveAll_append_none hskip, driveAll_cons helse]
  exact hagrees.of_within hnest'

end Branches

theorem ifElse (hctx : Faithful ctx) {body otherwise : Tree} (hnot : body.isIf = false)
    (hguarded : Guarded body) (hguarded' : Guarded otherwise)
    (hbody : Executes base inFunction ctx body)
    (hotherwise : Executes base inFunction ctx otherwise) (line : Nat)
    (condition : Except SyntaxError Expr) (elseLine : Nat) :
    Executes base inFunction ctx (.ifElse line condition body elseLine otherwise) := by
  intro nest above m m' ⟨hnest, hrunning, hscopes, hlive, _⟩ hlike
  have hbegun := Running.of_waiting hnest hrunning hscopes hlive
  refine ⟨?_, nofun⟩
  unfold items exec
  rw [Eval.andThen_apply_ok (show Run.scopes ctx m' = (.ok m'.env.scopes, m') from rfl),
    Eval.andThen_apply]
  rcases drive_test hctx hbegun hlike line condition with
    ⟨fault, after, after', hdrive, hholds, hafter⟩ |
    ⟨result, after, after', nest', above', hdrive, hholds, hafter, hrun, hnest'⟩
  · rw [driveAll_error hdrive, hholds]
    exact ⟨rfl, hafter, nofun⟩
  · rw [driveAll_cons hdrive, hholds]
    cases result with
    | true => exact firstBranch hrun hnest' hafter hnot hbody hguarded' elseLine
    | false => exact secondBranch hrun hnest' hafter hnot hguarded hotherwise elseLine

end Executes

theorem ExecutesAll.nil : ExecutesAll base inFunction ctx [] :=
  fun _ _ _ _ _ hscopes hlike => ⟨rfl, hlike, fun _ => hscopes ▸ .refl _⟩

theorem ExecutesAll.cons {tree : Tree} {rest : List Tree}
    (htree : Executes base inFunction ctx tree) (hrest : ExecutesAll base inFunction ctx rest) :
    ExecutesAll base inFunction ctx (tree :: rest) := by
  intro nest m m' hnest hrunning hscopes hlike
  have hstart : (m.mapScopes (arrive tree.isBlock)).Like (m'.mapScopes (arrive tree.isBlock)) :=
    hlike.mapScopes _
  obtain ⟨hagrees, -⟩ := htree (.next hnest hrunning hscopes) hstart
  have hexec : execAll .chained inFunction (tree :: rest) ctx m' =
      followedBy (exec .chained inFunction nest.depth tree)
        (execAll .chained inFunction rest) ctx (m'.mapScopes (arrive tree.isBlock)) := by
    have hsame : m'.env.scopes = nest := hlike.scopes.trans hscopes
    rw [execAll_cons, hsame, mapScopes_arrive hnest hsame]
  rw [hexec]
  unfold itemsAll
  rw [driveAll_append]
  refine hagrees.followedBy fun after after' _ hafter hwithin => ?_
  have hagrees' := hrest (hnest.within hwithin) (hwithin.current.skipping.trans hrunning) rfl hafter
  exact hagrees'.of_within hwithin

mutual

theorem execute (hctx : Faithful ctx) :
    (tree : Tree) → Guarded tree → Executes base inFunction ctx tree
  | .expression line expr, _ => Executes.expression hctx line expr
  | .giveBack line expr, _ => Executes.giveBack hctx line expr
  | .block first body last, hguarded => Executes.block (executeAll hctx body hguarded) first last
  | .ifOnly line condition body, hguarded =>
    have hbody : Guarded body := hguarded
    Executes.ifOnly hctx hbody (execute hctx body hbody) line condition
  | .ifElse line condition body elseLine otherwise, ⟨hnot, hbody, hotherwise⟩ =>
    Executes.ifElse hctx hnot hbody hotherwise (execute hctx body hbody)
      (execute hctx otherwise hotherwise) line condition elseLine

theorem executeAll (hctx : Faithful ctx) :
    (trees : List Tree) → GuardedAll trees → ExecutesAll base inFunction ctx trees
  | [], _ => ExecutesAll.nil
  | tree :: rest, hguarded =>
    ExecutesAll.cons (execute hctx tree hguarded.1) (executeAll hctx rest hguarded.2)

end

end BuildScript.Program
