import BuildScript.Proofs.Program.Inert
import BuildScript.Proofs.Run.Deafness
import BuildScript.Proofs.Run.Scripts
import Mathlib

/-!
Recovery. A statement that fails is reported and ends like any other, so the lines around it do what
they would do if it were harmless. A line that does not lex and an `if` without a condition are
reported, too, but end nothing: after them a body still waits for its statement, and an `else` for
the `if` before it.
-/

namespace BuildScript

open Text (SourceLine)

/-- What a statement does when its turn comes, before it ends. An `if`, an `else` and a brace are no
statements, nor is a `return` that ends a body. -/
def Item.action? (inFunction : Bool) : Item → Option (Eval Flow)
  | .expression expr => some (Run.expressionFlow expr)
  | .declaration header (.ok body) => some do
    Run.declareHeader header body
    return .nothing
  | .declaration _ (.error e) | .rejected e | .malformed e => some (Eval.fail (.parse e))
  | .giveBack _ => if inFunction then none else some (Eval.raise .returnOutsideFunction)
  | _ => none

/-- Nothing waits above the first `base` scopes: no body for its statement, no `else` for its
`if`. -/
structure Machine.Settled (base : Nat) (m : Machine) : Prop where
  awaitingBody : m.env.scopes.current.awaitingBody = false
  openSingles : Run.openSingles base m.env.scopes.inner = 0
  lastIf : m.lastIf = none

namespace Run

variable {base : Nat} {inFunction : Bool} {ctx : Context} {m after : Machine}

/-- The machine after a statement that did nothing. -/
def completed (base : Nat) (m : Machine) : Machine :=
  Program.finished base none (m.mapScopes (·.begun))

theorem closeSingles_nothing {scopes : List Scope} (h : openSingles base scopes = 0)
    (outcome : Option Bool) : closeSingles base outcome scopes 0 = (outcome, 0) := by
  cases scopes with
  | nil => rfl
  | cons scope rest =>
    unfold openSingles at h
    unfold closeSingles
    split at h
    · cases h
    · rename_i hnot
      rw [if_neg hnot]

/-- Where nothing waits, the end of a statement changes nothing. -/
theorem completed_settled (h : m.Settled base) : completed base m = m := by
  unfold completed
  rw [Program.mapScopes_begun h.awaitingBody]
  unfold Program.finished
  rw [closeSingles_nothing h.openSingles]
  obtain ⟨_, _, hlast⟩ := h
  cases m
  cases hlast
  rfl

theorem openSingles_begun (base : Nat) (stack : ScopeStack) :
    openSingles base stack.begun.inner = openSingles base stack.inner := by
  obtain ⟨inner, names⟩ := stack
  cases inner <;> rfl

/-- Where something waits, the end of a statement closes scopes or settles the last `if`. -/
theorem completed_waiting (h : openSingles base m.env.scopes.inner ≠ 0 ∨ m.lastIf ≠ none) :
    (completed base m).env.scopes.inner.length ≠ m.env.scopes.inner.length ∨
      (completed base m).lastIf ≠ m.lastIf := by
  have hclosed := @closeSingles_closed base none m.env.scopes.begun.inner 0
  rw [openSingles_begun, Nat.zero_add] at hclosed
  have hle := ScopeStack.openSingles_le base m.env.scopes.inner
  have hlength : (completed base m).env.scopes.inner.length =
      m.env.scopes.inner.length - openSingles base m.env.scopes.inner := by
    show (m.env.scopes.begun.inner.drop
      (closeSingles base none m.env.scopes.begun.inner 0).2).length = _
    rw [List.length_drop, ScopeStack.length_begun, hclosed]
  by_cases hsingles : openSingles base m.env.scopes.inner = 0
  · refine .inr ?_
    have hlast : (completed base m).lastIf = none := by
      show (closeSingles base none m.env.scopes.begun.inner 0).1 = none
      rw [closeSingles_nothing (by rw [openSingles_begun, hsingles])]
    rw [hlast]
    exact (h.resolve_left (not_not.mpr hsingles)).symm
  · refine .inl ?_
    omega

/-- The expression statement `0`. -/
def harmless : Item := .expression (.literal (.int 0))

theorem readLine_harmless (number : Nat) (rest : List SourceLine) :
    Script.readLine ⟨number, "0"⟩ rest = (⟨number, .ok [harmless]⟩, rest) := by
  let zero : Token := ⟨.literal (.int 0), "0", true⟩
  have hlexed : Lexed.ofLine "0" = .ok ⟨[zero], false⟩ := by cbv
  have hparsed : Statement.parse [zero] = .ok (.expression (.literal (.int 0))) := by cbv
  have hread : Clause.read? zero [] = some (.statement [zero], 0) := rfl
  have hclause : Item.ofClause (.statement [zero]) = .inl harmless := by
    unfold Item.ofClause
    dsimp only
    rw [hparsed]
    rfl
  have hitems : Item.ofTokens number [zero] rest = ([harmless], rest) := by
    rw [Item.ofTokens, hread]
    dsimp only
    rw [hclause]
    dsimp only [List.drop]
    rw [Item.ofTokens]
  have hspliced : spliceLine ⟨number, "0"⟩ rest = (.ok [zero], rest) := by
    refine spliceLine_uncontinued ?_ ?_ rest
    · rw [hlexed]
      rfl
    · intro lexed h
      rw [hlexed] at h
      cases h
      rfl
  unfold Script.readLine
  rw [hspliced]
  unfold Script.lineOf
  dsimp only
  rw [hitems]

theorem unopened_harmless (number : Nat) (rest : List SourceLine) :
    Unopened (⟨number, "0"⟩ :: rest) := by
  rintro _ ⟨⟩
  cbv

/-- `0` does nothing but end the statements that wait for it. -/
theorem enterLine_harmless (number : Nat) (m : Machine) :
    ∃ flow : Flow, flow.returned? = none ∧
      enterLine base inFunction ⟨number, .ok [harmless]⟩ ctx m =
        (.ok flow, completed base { m with line := number }) := by
  have hitem : harmless ≠ .blockOpen := by
    intro h
    cases h
  have hbegin := @Program.beginItem_apply ctx _ hitem { m with line := number }
  have hfinish (flow : Flow) (hflow : flow.returned? = none) :=
    @Program.finishStatement_apply base ctx flow hflow
      ({ m with line := number }.mapScopes (·.begun))
  have hrun : ∃ flow : Flow, flow.returned? = none ∧
      runItem base inFunction harmless ctx { m with line := number } =
        (.ok flow, completed base { m with line := number }) := by
    unfold runItem
    rw [Eval.andThen_apply_ok hbegin]
    unfold harmless
    dsimp only
    split
    · exact hfinish .nothing rfl
    · exact hfinish (.value (.int 0)) rfl
  obtain ⟨flow, hflow, hrun⟩ := hrun
  exact enterLine_item hrun hflow

/-- A statement that fails is reported and, unless it is malformed, ends. -/
theorem runItem_fails {item : Item} {action : Eval Flow} {fault : Fault}
    (haction : item.action? inFunction = some action)
    (hlive : m.env.scopes.current.skipping = false) (hcommon : fault.isFatal = false)
    (hfails : action ctx (m.mapScopes (·.begun)) = (.error fault, after)) :
    ∃ flow : Flow, flow.returned? = none ∧
      runItem base inFunction item ctx m = (.ok flow,
        if item.outline = .statement then Program.finished base none (after.report fault)
        else after.report fault) := by
  have hitem : item ≠ .blockOpen := by
    rintro rfl
    cases haction
  have hbegin := @Program.beginItem_running ctx m item hitem hlive
  have hreport := Eval.recover_common hcommon ctx after
  have hfinish := @Program.finishStatement_apply base ctx .error rfl (after.report fault)
  have hguarded {flow : Eval Flow} (h : flow ctx (m.mapScopes (·.begun)) = (.error fault, after)) :
      guarded flow ctx (m.mapScopes (·.begun)) = (.ok .error, after.report fault) := by
    rw [guarded_error h, Eval.andThen_apply_ok hreport]
    rfl
  have hrejected (e : SyntaxError) : reject false e ctx (m.mapScopes (·.begun)) =
      (.ok (), (m.mapScopes (·.begun)).report (.parse e)) :=
    Eval.recover_common rfl ctx (m.mapScopes (·.begun))
  unfold runItem
  rw [Eval.andThen_apply_ok hbegin]
  cases item with
  | expression expr =>
    cases haction
    dsimp only
    rw [if_neg Bool.false_ne_true, Eval.andThen_apply_ok (hguarded hfails)]
    exact hfinish
  | declaration header body =>
    cases body with
    | error e =>
      cases haction
      cases hfails
      unfold runDeclaration
      dsimp only
      rw [Eval.andThen_apply_ok (hrejected e)]
      exact hfinish
    | ok body =>
      cases haction
      unfold runDeclaration
      dsimp only
      rw [if_neg Bool.false_ne_true, Eval.andThen_apply_ok (hguarded hfails)]
      exact hfinish
  | rejected e =>
    cases haction
    cases hfails
    dsimp only
    rw [Eval.andThen_apply_ok (hrejected e)]
    exact hfinish
  | malformed e =>
    cases haction
    cases hfails
    dsimp only
    rw [Eval.andThen_apply_ok (hrejected e)]
    exact ⟨.error, rfl, rfl⟩
  | giveBack expr =>
    cases inFunction with
    | true => cases haction
    | false =>
      cases haction
      cases hfails
      unfold runReturn
      dsimp only
      rw [if_neg Bool.false_ne_true, if_pos Bool.not_false, Eval.andThen_apply_ok hreport]
      exact hfinish
  | condition _ => cases haction
  | elseMark => cases haction
  | blockOpen => cases haction
  | blockClose => cases haction

/-- What a line holds fails where it stands, for an ordinary reason and without doing anything but
tell something: a line that does not lex, or one statement that is not skipped. `log` is what was
told then. -/
inductive Fails (inFunction : Bool) (ctx : Context) (here : Machine) :
    Except SyntaxError (List Item) → Log → Prop
  | lexical (e : SyntaxError) : Fails inFunction ctx here (.error e) (here.report (.parse e)).log
  | statement {item : Item} {action : Eval Flow} {fault : Fault} {log : Log}
      (haction : item.action? inFunction = some action)
      (hlive : here.env.scopes.current.skipping = false) (hcommon : fault.isFatal = false)
      (hfails : action ctx (here.mapScopes (·.begun)) =
        (.error fault, (here.mapScopes (·.begun)).withLog log)) :
      Fails inFunction ctx here (.ok [item]) ((here.withLog log).report fault).log

/-- What the line holds is one statement that ends when it is done. -/
def Completes (content : Except SyntaxError (List Item)) : Prop :=
  ∃ item : Item, content = .ok [item] ∧ item.outline = .statement

/-- The machine after a line that fails, apart from its log. -/
def failed (base : Nat) (here : Machine) : Except SyntaxError (List Item) → Machine
  | .ok [item] =>
    if item.outline = .statement then completed base here else here.mapScopes (·.begun)
  | _ => here

theorem enterLine_fails {number : Nat} {content : Except SyntaxError (List Item)} {log : Log}
    (h : Fails inFunction ctx { m with line := number } content log) :
    ∃ flow : Flow, flow.returned? = none ∧ enterLine base inFunction ⟨number, content⟩ ctx m =
      (.ok flow, (failed base { m with line := number } content).withLog log) := by
  cases h with
  | lexical e => exact ⟨.error, rfl, rfl⟩
  | @statement item action fault log haction hlive hcommon hfails =>
    obtain ⟨flow, hflow, hrun⟩ := @runItem_fails base inFunction ctx _ _ item action fault haction
      hlive hcommon hfails
    obtain ⟨flow', hflow', henter⟩ := enterLine_item hrun hflow
    refine ⟨flow', hflow', ?_⟩
    rw [henter]
    unfold failed
    dsimp only
    split <;> rfl

theorem failed_completed {here : Machine} {content : Except SyntaxError (List Item)} {log : Log}
    (h : Fails inFunction ctx here content log) (hends : Completes content ∨ here.Settled base) :
    failed base here content = completed base here := by
  rcases hends with ⟨item, rfl, houtline⟩ | hsettled
  · exact if_pos houtline
  · rw [completed_settled hsettled]
    unfold failed
    split
    · split
      · exact completed_settled hsettled
      · exact Program.mapScopes_begun hsettled.awaitingBody
    · rfl

/-- A line that fails without ending leaves the scopes and the last `if` as they are. -/
theorem failed_incomplete {content : Except SyntaxError (List Item)}
    (hincomplete : ¬Completes content) (here : Machine) :
    (failed base here content).env.scopes.inner.length = here.env.scopes.inner.length ∧
      (failed base here content).lastIf = here.lastIf := by
  unfold failed
  split
  · rename_i item
    rw [if_neg fun houtline => hincomplete ⟨item, rfl, houtline⟩]
    exact ⟨ScopeStack.length_begun here.env.scopes, rfl⟩
  · exact ⟨rfl, rfl⟩

theorem Fails.flagged {here : Machine} {content : Except SyntaxError (List Item)} {log : Log}
    (h : Fails inFunction ctx here content log) : log.errorFlag = true := by
  cases h <;> rfl

/-- In the second of two runs an error was reported. -/
def SecondFailed (_ second : Bool) : Prop := second = true

theorem concluded_concurs {flags : Bool → Bool → Prop} {early early' : Log}
    (hflags : flags true true) {result result' : Except Fault Flow × Machine}
    (hreturned : result.1.map Flow.returned? = result'.1.map Flow.returned?)
    (h : Machine.Concurs flags early early' result.2 result'.2) :
    (concluded base result).1.map Flow.returned? = (concluded base result').1.map Flow.returned? ∧
      Machine.Concurs flags early early' (concluded base result).2 (concluded base result').2 := by
  refine ⟨hreturned, ?_⟩
  unfold concluded
  rw [ended_returned, ended_returned, hreturned]
  obtain ⟨flow, after⟩ := result
  obtain ⟨flow', after'⟩ := result'
  obtain ⟨hlog⟩ := h
  dsimp only
  split
  · split
    · exact .mk ((after.report (.eval .unterminatedBlock)).mapScopes (·.truncate base))
        (hlog.error hflags _)
    · exact .mk (after.mapScopes (·.truncate base)) hlog
  · exact .mk (after.mapScopes (·.truncate base)) hlog

/-- In contexts that do not hear what was told before, a script goes on after a line that failed as
it does after a harmless one. -/
theorem runScript_concurs (hctx : ctx.Deaf) {early early' : Log} {flow flow' : Flow}
    (hflow : flow.returned? = none) (hflow' : flow'.returned? = none) {quiet loud : Machine}
    (h : Machine.Concurs SecondFailed early early' quiet loud) (script : Script) :
    (runScript base inFunction flow script ctx quiet).1.map Flow.returned? =
        (runScript base inFunction flow' script ctx loud).1.map Flow.returned? ∧
      Machine.Concurs SecondFailed early early'
        (runScript base inFunction flow script ctx quiet).2
        (runScript base inFunction flow' script ctx loud).2 := by
  rw [Machine.concurs_eq_abreast] at h ⊢
  have hflags : SecondFailed true true := rfl
  obtain ⟨hresult, hafter⟩ := ((lines_alongside (Log.Concurs.keeps hflags)
    (hctx.alongside hflags) base).runScript inFunction flow script).apply rfl h
  obtain ⟨hreturned, hsame⟩ := Prod.mk.inj
    (@runScript_flow base inFunction ctx flow flow' hflow hflow' script loud)
  rw [← hreturned, ← hsame, hresult]
  exact ⟨rfl, hafter⟩

/-- The lines around a line that is read alone are read the same with `0` in its place. -/
theorem ofLines_replaced {before after : List SourceLine} {line : SourceLine}
    {content : Except SyntaxError (List Item)}
    (hbegins : Script.Begins (line :: after) (before ++ line :: after))
    (halone : Script.readLine line after = (⟨line.number, content⟩, after)) :
    Script.ofLines (before ++ line :: after) =
        Script.ofLines before ++ ⟨line.number, content⟩ :: Script.ofLines after ∧
      Script.ofLines (before ++ ⟨line.number, "0"⟩ :: after) =
        Script.ofLines before ++ ⟨line.number, .ok [harmless]⟩ :: Script.ofLines after := by
  obtain ⟨hhere, hfront⟩ := Script.ofLines_before hbegins
  constructor
  · rw [hhere, Script.ofLines_cons, halone]
  · rw [hfront _ (unopened_harmless _ _), Script.ofLines_cons, readLine_harmless]

/-- A skipped statement does what `0` does there. -/
theorem enterLine_skipped {item : Item} {number : Nat}
    (hskipped : m.env.scopes.current.skipping = true)
    (houtline : item.outline = .statement ∨
      item.outline = .malformed ∧ { m with line := number }.Settled base) :
    ∃ flow : Flow, flow.returned? = none ∧ enterLine base inFunction ⟨number, .ok [item]⟩ ctx m =
      (.ok flow, completed base { m with line := number }) := by
  obtain ⟨flow, hflow, hitem⟩ :=
    @Program.runItem_passedOver base inFunction ctx { m with line := number } hskipped item
  have hpassed : Program.passedOver base item.outline { m with line := number } =
      completed base { m with line := number } := by
    rcases houtline with houtline | ⟨houtline, hsettled⟩
    · rw [houtline]
      rfl
    · rw [houtline, completed_settled hsettled]
      exact Program.mapScopes_begun hsettled.awaitingBody
  rw [hpassed] at hitem
  exact enterLine_item hitem hflow

/-- A line that fails without ending, where something waits, does not do what `0` does there. -/
theorem enterLine_incomplete {number : Nat} {content : Except SyntaxError (List Item)} {log : Log}
    (hfails : Fails inFunction ctx { m with line := number } content log)
    (hincomplete : ¬Completes content)
    (hwaiting : openSingles base m.env.scopes.inner ≠ 0 ∨ m.lastIf ≠ none) :
    let failed := (enterLine base inFunction ⟨number, content⟩ ctx m).2
    let ended := (enterLine base inFunction ⟨number, .ok [harmless]⟩ ctx m).2
    failed.env.scopes ≠ ended.env.scopes ∨ failed.lastIf ≠ ended.lastIf := by
  obtain ⟨_, -, hfailed⟩ := @enterLine_fails base inFunction ctx m _ _ log hfails
  obtain ⟨_, -, hended⟩ := @enterLine_harmless base inFunction ctx number m
  obtain ⟨hlength, hlast⟩ := @failed_incomplete base content hincomplete { m with line := number }
  rw [hfailed, hended]
  have hhere : openSingles base { m with line := number }.env.scopes.inner ≠ 0 ∨
      { m with line := number }.lastIf ≠ none := hwaiting
  rcases completed_waiting hhere with hdiffers | hdiffers
  · refine .inl fun hscopes => hdiffers ?_
    exact (congrArg (·.inner.length) hscopes).symm.trans hlength
  · refine .inr fun hlastIf => hdiffers ?_
    exact hlastIf.symm.trans hlast

end Run

namespace Session

variable {host : Host}

/-- Every statement that fails is its own unit of recovery, be it in a file or in a body: the other
lines do what they would do if its line held `0` instead. They leave the same machine, but that in
its log the messages of the failed line stand between those from before and those from after it.

A line that does not lex and an `if` without a condition are no such units: unless nothing waits for
a statement or an `else` where they stand, they leave other scopes or another last `if` than `0`. -/
theorem statement_recovers (hhost : host.Deaf) (budget : Nat) (held : List Anchor)
    {before after : List SourceLine} {line : SourceLine}
    {content : Except SyntaxError (List Item)}
    (hbegins : Script.Begins (line :: after) (before ++ line :: after))
    (halone : Script.readLine line after = (⟨line.number, content⟩, after)) (inFunction : Bool)
    (m : Machine) :
    let ctx := context host budget held
    let base := m.env.scopes.depth
    let loud := Run.runLines (before ++ line :: after) inFunction ctx m
    let quiet := Run.runLines (before ++ ⟨line.number, "0"⟩ :: after) inFunction ctx m
    (Run.reached? before inFunction ctx m = none → loud = quiet) ∧
    ∀ reached, Run.reached? before inFunction ctx m = some reached →
      let here := { reached with line := line.number }
      (∀ item, content = .ok [item] → here.env.scopes.current.skipping = true →
        item.outline = .statement ∨ item.outline = .malformed ∧ here.Settled base →
          loud.1.map Flow.returned? = quiet.1.map Flow.returned? ∧ loud.2 = quiet.2) ∧
      ∀ log, Run.Fails inFunction ctx here content log →
        (Run.Completes content ∨ here.Settled base →
          quiet.1.map Flow.returned? = loud.1.map Flow.returned? ∧
            Machine.Concurs Run.SecondFailed here.log log quiet.2 loud.2) ∧
        (¬Run.Completes content →
          Run.openSingles base here.env.scopes.inner ≠ 0 ∨ here.lastIf ≠ none →
            let failed := (Run.enterLine base inFunction ⟨line.number, content⟩ ctx reached).2
            let ended := (Run.enterLine base inFunction ⟨line.number, .ok [Run.harmless]⟩ ctx
              reached).2
            failed.env.scopes ≠ ended.env.scopes ∨ failed.lastIf ≠ ended.lastIf) := by
  intro ctx base loud quiet
  obtain ⟨hfront, hreplaced⟩ := Run.ofLines_replaced hbegins halone
  constructor
  · intro hunreached
    exact (Run.runLines_unreached hfront hunreached).trans
      (Run.runLines_unreached hreplaced hunreached).symm
  intro reached hreached here
  obtain ⟨flow₀, hflow₀, hzero⟩ := @Run.enterLine_harmless base inFunction ctx line.number reached
  have hquiet : quiet = Run.concluded base
      (Run.runScript base inFunction flow₀ (.ofLines after) ctx (Run.completed base here)) :=
    Run.runLines_reached hreplaced hreached hflow₀ hzero
  constructor
  · rintro item rfl hskipped houtline
    obtain ⟨flow, hflow, henter⟩ :=
      @Run.enterLine_skipped base inFunction ctx reached item line.number hskipped houtline
    have hloud : loud = Run.concluded base
        (Run.runScript base inFunction flow (.ofLines after) ctx (Run.completed base here)) :=
      Run.runLines_reached hfront hreached hflow henter
    rw [hloud, hquiet]
    exact Prod.mk.inj (Run.concluded_same (Run.runScript_flow hflow hflow₀ _ _))
  · intro log hfails
    constructor
    · intro hends
      obtain ⟨flow, hflow, henter⟩ :=
        @Run.enterLine_fails base inFunction ctx reached line.number _ log hfails
      rw [Run.failed_completed hfails hends] at henter
      have hloud : loud = Run.concluded base (Run.runScript base inFunction flow (.ofLines after)
          ctx ((Run.completed base here).withLog log)) :=
        Run.runLines_reached hfront hreached hflow henter
      have hstart : Machine.Concurs Run.SecondFailed here.log log
          (Run.completed base here) ((Run.completed base here).withLog log) :=
        .mk _ ⟨⟨[], rfl, rfl⟩, ⟨0, rfl, rfl⟩, hfails.flagged⟩
      obtain ⟨hreturned, hrest⟩ := Run.runScript_concurs (context_deaf hhost budget held)
        hflow₀ hflow hstart (.ofLines after)
      have hflags : Run.SecondFailed true true := rfl
      rw [hloud, hquiet]
      exact Run.concluded_concurs hflags hreturned hrest
    · intro hincomplete hwaiting
      exact Run.enterLine_incomplete hfails hincomplete hwaiting

/-- A new interpreter at the beginning of a file. -/
def atFile : Machine := Eval.opened "test.eve" (.initial .standard (.shelf ⟨[]⟩))

/-- An undeclared name is the body of an `if`; the `else` after it pairs as after `0`. -/
theorem undeclared_body_recovers :
    let ctx := context .none 1 []
    let before : List SourceLine := [⟨1, "if (true)"⟩]
    let after : List SourceLine := [⟨3, "else println(1)"⟩]
    ∃ reached log, Run.reached? before false ctx atFile = some reached ∧
      Run.Fails false ctx { reached with line := 2 } (.ok [.expression (.identifier "y")]) log ∧
      Machine.Concurs Run.SecondFailed reached.log log
        (Run.runLines (before ++ ⟨2, "0"⟩ :: after) false ctx atFile).2
        (Run.runLines (before ++ ⟨2, "y"⟩ :: after) false ctx atFile).2 := by
  intro ctx before after
  have hfirst : Script.readLine ⟨1, "if (true)"⟩ (⟨2, "y"⟩ :: after) =
      (⟨1, .ok [.condition (.ok (.literal (.bool true)))]⟩, ⟨2, "y"⟩ :: after) := by cbv
  have hbegins : Script.Begins (⟨2, "y"⟩ :: after) (before ++ ⟨2, "y"⟩ :: after) := by
    refine .later ?_
    show Script.Begins _ (Script.readLine ⟨1, "if (true)"⟩ (⟨2, "y"⟩ :: after)).2
    rw [hfirst]
    exact .now
  have halone : Script.readLine ⟨2, "y"⟩ after =
      (⟨2, .ok [.expression (.identifier "y")]⟩, after) := by cbv
  have hbefore : Script.ofLines before =
      [⟨1, .ok [.condition (.ok (.literal (.bool true)))]⟩] := by cbv
  have hreached : ∃ reached, Run.reached? before false ctx atFile = some reached ∧
      reached.env.scopes.current.skipping = false ∧
      Run.expressionFlow (.identifier "y") ctx
        ({ reached with line := 2 }.mapScopes (·.begun)) = (.error (.eval (.notDeclared "y")),
          ({ reached with line := 2 }.mapScopes (·.begun)).withLog reached.log) := by
    unfold Run.reached?
    rw [hbefore]
    exact ⟨_, rfl, rfl, rfl⟩
  obtain ⟨reached, hreached, hlive, hfails⟩ := hreached
  have hfails : Run.Fails false ctx { reached with line := 2 }
      (.ok [.expression (.identifier "y")]) _ := .statement rfl hlive rfl hfails
  obtain ⟨-, hrecovers⟩ := statement_recovers Host.none_deaf 1 [] hbegins halone false atFile
  obtain ⟨-, hrecovers⟩ := hrecovers reached hreached
  obtain ⟨hrecovers, -⟩ := hrecovers _ hfails
  exact ⟨reached, _, hreached, hfails, (hrecovers (.inl ⟨_, rfl, rfl⟩)).2⟩

/-- A line that does not lex is the body of an `if` that does not hold: the statement on the line
after it is taken for the body and skipped. -/
theorem unlexed_body_swallows :
    ¬∀ (before after : List SourceLine) (line : SourceLine)
      (content : Except SyntaxError (List Item)),
      Script.Begins (line :: after) (before ++ line :: after) →
      Script.readLine line after = (⟨line.number, content⟩, after) →
      ∀ reached log, Run.reached? before false (context .none 1 []) atFile = some reached →
        Run.Fails false (context .none 1 []) { reached with line := line.number } content log →
          Machine.Concurs Run.SecondFailed reached.log log
            (Run.runLines (before ++ ⟨line.number, "0"⟩ :: after) false (context .none 1 [])
              atFile).2
            (Run.runLines (before ++ line :: after) false (context .none 1 []) atFile).2 := by
  intro hclaim
  let opening : SourceLine := ⟨1, "if (false)"⟩
  let bad : SourceLine := ⟨2, "\"unterminated"⟩
  let printing : SourceLine := ⟨3, "println(1)"⟩
  have hfirst : Script.readLine opening [bad, printing] =
      (⟨1, .ok [.condition (.ok (.literal (.bool false)))]⟩, [bad, printing]) := by cbv
  have hbegins : Script.Begins [bad, printing] ([opening] ++ [bad, printing]) := by
    refine .later ?_
    show Script.Begins _ (Script.readLine opening [bad, printing]).2
    rw [hfirst]
    exact .now
  have halone : Script.readLine bad [printing] =
      (⟨bad.number, .error .unterminatedString⟩, [printing]) := by cbv
  have hbefore : Script.ofLines [opening] =
      [⟨1, .ok [.condition (.ok (.literal (.bool false)))]⟩] := by cbv
  have hafter : Script.ofLines [printing] =
      [⟨3, .ok [.expression (.call (.identifier "println") [.literal (.int 1)])]⟩] := by cbv
  obtain ⟨hloudLines, hquietLines⟩ := Run.ofLines_replaced hbegins halone
  rw [hbefore, hafter] at hloudLines hquietLines
  have hreached : ∃ reached, Run.reached? [opening] false (context .none 1 []) atFile =
      some reached ∧ reached.log.events = [] := by
    unfold Run.reached?
    rw [hbefore]
    exact ⟨_, rfl, rfl⟩
  obtain ⟨reached, hreached, hsilent⟩ := hreached
  have hconcurs := hclaim _ _ bad _ hbegins halone reached _ hreached (.lexical _)
  obtain ⟨later, hquiet, hloud⟩ := hconcurs.logs.events
  -- With `0` the only event is what `println` printed, without it the only event is the report.
  have hprinted : (Run.runLines ([opening] ++ ⟨bad.number, "0"⟩ :: [printing]) false
      (context .none 1 []) atFile).2.log.events.length = 1 := by
    rw [Run.runLines_apply, hquietLines]
    rfl
  have hreported : (Run.runLines ([opening] ++ bad :: [printing]) false (context .none 1 [])
      atFile).2.log.events.length = 1 := by
    rw [Run.runLines_apply, hloudLines]
    rfl
  have hlater : later.length = 1 := by
    rw [← hprinted, ← List.append_nil later, ← hsilent]
    exact congrArg List.length hquiet.symm
  have htwo := congrArg List.length hloud
  rw [List.length_append, hlater] at htwo
  have hone : (({ reached with line := bad.number }).report
      (.parse .unterminatedString)).log.events.length = reached.log.events.length + 1 := rfl
  rw [hone, hsilent] at htwo
  cases hreported.symm.trans htwo

end Session

end BuildScript
