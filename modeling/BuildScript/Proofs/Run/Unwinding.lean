import BuildScript.Proofs.Program.Lines
import BuildScript.Proofs.Run.Surroundings
import Mathlib

/-!
How a fatal fault leaves the calls it is raised in. What is being evaluated at one moment is a chain
of evaluations, each begun by the one before it: a statement evaluates an expression, that calls a
body, and so on to the call that fails. Every place in between where faults are caught hands a fatal
one on, so that the chain ends as one, and the outermost statement alone reports it.
-/

namespace BuildScript

/-- An evaluation that begins in some machine, where so many bodies may still nest. -/
structure Activity where
  {Result : Type}
  budget : Nat
  held : List Anchor
  eval : Eval Result
  machine : Machine

namespace Activity

variable {host : Host}

/-- How the evaluation ends. -/
def outcome (host : Host) (activity : Activity) : Except Fault activity.Result × Machine :=
  activity.eval (Session.context host activity.budget activity.held) activity.machine

/-- One evaluation begins another in the course of its own: the first part of a composition, the
rest once that has succeeded, the body of a call with its lines, and what statements, conditions and
returns inside of calls guard. Neither a file nor the embedding program is entered. -/
inductive Enters (host : Host) : Activity → Activity → Prop
  | first {α β : Type} {budget held} (x : Eval α) (f : α → Eval β) (m : Machine) :
      Enters host ⟨budget, held, x >>= f, m⟩ ⟨budget, held, x, m⟩
  | next {α β : Type} {budget held} {x : Eval α} {f : α → Eval β} {m after : Machine} {a : α}
      (h : x (Session.context host budget held) m = (.ok a, after)) :
      Enters host ⟨budget, held, x >>= f, m⟩ ⟨budget, held, f a, after⟩
  | holding {α : Type} {budget held} (anchors : List Anchor) (x : Eval α) (m : Machine) :
      Enters host ⟨budget, held, Eval.holding anchors x, m⟩ ⟨budget, anchors ++ held, x, m⟩
  | frame {budget held} (file : String) (receiver : Option ObjectId)
      (bound : List (String × Eval.Bound)) (lines : List Text.SourceLine) (m : Machine) :
      Enters host ⟨budget, held, Eval.inFrame file (Eval.callBody receiver bound lines), m⟩
        ⟨budget, held, Eval.callBody receiver bound lines, Eval.entered file m⟩
  | body {budget held} (lines : List Text.SourceLine) (m : Machine) :
      Enters host ⟨budget + 1, held, Eval.runBody lines true, m⟩
        ⟨budget, held, Run.runLines lines true, m⟩
  | lines {budget held} (lines : List Text.SourceLine) (inFunction : Bool) (m : Machine) :
      Enters host ⟨budget, held, Run.runLines lines inFunction, m⟩
        ⟨budget, held,
          Run.runScript m.env.scopes.depth inFunction .nothing (.ofLines lines), m⟩
  | statement {budget held} (expr : Expr) {m : Machine} (hinside : 0 < m.callDepth) :
      Enters host ⟨budget, held, Run.guarded (Run.expressionFlow expr), m⟩
        ⟨budget, held, Run.expressionFlow expr, m⟩
  | condition {budget held} (condition : Except SyntaxError Expr) {m : Machine}
      (hinside : 0 < m.callDepth) :
      Enters host ⟨budget, held, Run.enterIf false (Run.conditionHolds condition), m⟩
        ⟨budget, held, Run.conditionHolds condition, { m with lastIf := none }⟩
  | returned {budget held} (expr : Except SyntaxError Expr) {m : Machine}
      (hinside : 0 < m.callDepth) :
      Enters host ⟨budget, held, Run.returned (some expr), m⟩
        ⟨budget, held, Run.parsed expr >>= Eval.evalValue, m⟩

/-- One evaluation is under way when another begins, at any depth of calls. -/
def Leads (host : Host) : Activity → Activity → Prop := Relation.ReflTransGen (Enters host)

/-- A call that is one too deep, or an include that is. -/
inductive Refuses : Activity → Fault → Prop
  | function {budget held} (function : UserFunction) (receiver : Option ObjectId)
      (args : List Operand) {m : Machine} (hdepth : m.options.maxCallDepth ≤ m.callDepth) :
      Refuses ⟨budget, held, Eval.callUser function receiver args, m⟩
        (.eval (.callDepthExceeded m.options.maxCallDepth))
  | procedure {budget held} (procedure : Procedure) (args : List Operand) {m : Machine}
      (hdepth : m.options.maxCallDepth ≤ m.callDepth) :
      Refuses ⟨budget, held, Eval.callProcedure procedure args, m⟩
        (.eval (.callDepthExceeded m.options.maxCallDepth))
  | file {budget held} (path : String) {m : Machine}
      (hdepth : m.options.maxIncludeDepth ≤ m.includeDepth) :
      Refuses ⟨budget, held, Eval.includeFile path, m⟩
        (.eval (.includeDepthExceeded m.options.maxIncludeDepth))

end Activity

/-- A machine that differs from another in its place in the file, the outcome of the last `if`, the
depth of calls and the scopes only. -/
def Machine.Elsewhere (m m' : Machine) : Prop :=
  ∃ file line lastIf callDepth scopes,
    m' = { m with file, line, lastIf, callDepth, env := { m.env with scopes } }

/-- The machine put back to where another one stands. -/
def Machine.backIn (caller m : Machine) : Machine :=
  { m with
    file := caller.file
    line := caller.line
    lastIf := caller.lastIf
    callDepth := caller.callDepth
    env := { m.env with scopes := caller.env.scopes } }

namespace Machine.Elsewhere

variable {a b c : Machine}

theorem refl (m : Machine) : m.Elsewhere m :=
  ⟨m.file, m.line, m.lastIf, m.callDepth, m.env.scopes, rfl⟩

theorem trans (h : a.Elsewhere b) (h' : b.Elsewhere c) : a.Elsewhere c := by
  obtain ⟨file, line, lastIf, callDepth, scopes, rfl⟩ := h
  obtain ⟨file', line', lastIf', callDepth', scopes', rfl⟩ := h'
  exact ⟨file', line', lastIf', callDepth', scopes', rfl⟩

theorem left (caller m : Machine) : m.Elsewhere (Eval.left caller m) := ⟨_, _, _, _, _, rfl⟩

theorem mapScopes (m : Machine) (f : ScopeStack → ScopeStack) : m.Elsewhere (m.mapScopes f) :=
  ⟨_, _, _, _, _, rfl⟩

/-- Where a machine stands and its scopes are all that it has of its own. -/
theorem eq_backIn {caller : Machine} {scopes : ScopeStack} (h : a.Elsewhere b)
    (hundisturbed : caller.Undisturbed b) (hscopes : b.env.scopes = scopes) :
    b = (caller.withScopes scopes).backIn a := by
  obtain ⟨file, line, lastIf, callDepth, _, rfl⟩ := h
  obtain rfl : file = caller.file := hundisturbed.file
  obtain rfl : line = caller.line := hundisturbed.line
  obtain rfl : lastIf = caller.lastIf := hundisturbed.lastIf
  obtain rfl : callDepth = caller.callDepth := hundisturbed.callDepth
  obtain rfl := hscopes
  rfl

end Machine.Elsewhere

namespace Eval

variable {α : Type} {ctx : Context} {m after : Machine} {fault : Fault}

/-- Inside of a call a fatal fault is handed on. -/
theorem recover_fatal (hfatal : fault.isFatal = true) (hinside : 0 < m.callDepth) :
    recover fault ctx m = (.error fault, m) := by
  rw [recover_apply, hfatal, Bool.and_true, if_pos (decide_eq_true hinside)]

/-- At depth 0 every fault is reported. -/
theorem recover_outside (hdepth : m.callDepth = 0) :
    recover fault ctx m = (.ok (), m.report fault) := by
  rw [recover_apply, hdepth]
  rfl

end Eval

namespace Run

variable {ctx : Context} {m after : Machine} {fault : Fault}

theorem expressionFlow_undisturbed (hctx : ctx.Restores) (expr : Expr) (m : Machine) :
    m.Undisturbed (expressionFlow expr ctx m).2 :=
  ((Statements.of_steps (Eval.undisturbed_effects hctx).steps).expressionFlow expr).apply m

theorem conditionHolds_undisturbed (hctx : ctx.Restores) (condition : Except SyntaxError Expr)
    (m : Machine) : m.Undisturbed (conditionHolds condition ctx m).2 :=
  ((Statements.of_steps (Eval.undisturbed_effects hctx).steps).conditionHolds condition).apply m

theorem evalValue_undisturbed (hctx : ctx.Restores) (expr : Except SyntaxError Expr)
    (m : Machine) : m.Undisturbed ((parsed expr >>= Eval.evalValue) ctx m).2 := by
  have hstatements := Statements.of_steps (Eval.undisturbed_effects hctx).steps
  have hvalue := hstatements.bind (hstatements.parsed expr) hstatements.evalValue
  exact hvalue.apply m

theorem enterIf_error {condition : Eval Bool}
    (h : condition ctx { m with lastIf := none } = (.error fault, after)) :
    enterIf false condition ctx m = (do
      Eval.recover fault
      updateScopes (·.push (.conditional .skippedIf)) : Eval Unit) ctx after := by
  unfold enterIf
  rw [Eval.andThen_apply_ok (show setLastIf none ctx m = (.ok (), { m with lastIf := none })
    from rfl)]
  simp only [Bool.false_eq_true, if_false]
  rw [Eval.andThen_apply, Eval.andThen_apply, Eval.attempt_apply, h]
  dsimp only
  rw [Eval.andThen_apply]
  cases Eval.recover fault ctx after with
  | mk result after => cases result <;> rfl

/-- A failed expression statement is reported, ends as statements do, and the line goes on. -/
def failedStatement (base : Nat) (inFunction : Bool) (fault : Fault) (rest : List Item) :
    Eval Flow := do
  Eval.report fault
  let flow ← finishStatement base .error
  runItems base inFunction flow rest

/-- A failed condition is reported, counts as one that does not hold, and the line goes on. -/
def failedCondition (base : Nat) (inFunction : Bool) (fault : Fault) (rest : List Item) :
    Eval Flow := do
  Eval.report fault
  updateScopes (·.push (.conditional .skippedIf))
  runItems base inFunction .nothing rest

theorem runItems_expression_fails {base : Nat} {inFunction : Bool} {expr : Expr}
    (hlive : m.env.scopes.current.skipping = false)
    (h : expressionFlow expr ctx (m.mapScopes (·.begun)) = (.error fault, after))
    (hreported : Eval.recover fault ctx after = (.ok (), after.report fault)) (flow : Flow)
    (rest : List Item) :
    runItems base inFunction flow (.expression expr :: rest) ctx m =
      failedStatement base inFunction fault rest ctx after := by
  have hitem : Item.expression expr ≠ .blockOpen := by
    intro heq
    cases heq
  have hbegin := @Program.beginItem_running ctx m _ hitem hlive
  have hguarded := guarded_error h
  rw [Eval.andThen_apply_ok hreported] at hguarded
  have hrun : runItem base inFunction (.expression expr) ctx m =
      finishStatement base .error ctx (after.report fault) := by
    unfold runItem
    rw [Eval.andThen_apply_ok hbegin]
    exact Eval.andThen_apply_ok hguarded
  obtain ⟨ended, hended, hfinish⟩ :=
    @Program.finishStatement_apply base ctx .error rfl (after.report fault)
  have hreport : Eval.report fault ctx after = (.ok (), after.report fault) := rfl
  unfold failedStatement
  rw [Eval.andThen_apply_ok hreport, Eval.andThen_apply_ok hfinish, Program.runItems_cons, hrun,
    hfinish, goOn_none hended]

theorem runItems_condition_fails {base : Nat} {inFunction : Bool}
    {condition : Except SyntaxError Expr} (hlive : m.env.scopes.current.skipping = false)
    (h : conditionHolds condition ctx { m.mapScopes (·.begun) with lastIf := none } =
      (.error fault, after))
    (hreported : Eval.recover fault ctx after = (.ok (), after.report fault)) (flow : Flow)
    (rest : List Item) :
    runItems base inFunction flow (.condition condition :: rest) ctx m =
      failedCondition base inFunction fault rest ctx after := by
  have hitem : Item.condition condition ≠ .blockOpen := by
    intro heq
    cases heq
  have hbegin := @Program.beginItem_running ctx m _ hitem hlive
  have henter := enterIf_error h
  rw [Eval.andThen_apply_ok hreported] at henter
  have hrun : runItem base inFunction (.condition condition) ctx m =
      (.ok .nothing, (after.report fault).mapScopes (·.push (.conditional .skippedIf))) := by
    unfold runItem
    rw [Eval.andThen_apply_ok hbegin]
    exact Eval.andThen_apply_ok henter
  rw [Program.runItems_cons, hrun]
  rfl

theorem returned_error {expr : Except SyntaxError Expr}
    (h : (parsed expr >>= Eval.evalValue) ctx m = (.error fault, after)) :
    returned (some expr) ctx m = (do
      Eval.recover fault
      return none : Eval (Option Value)) ctx after := by
  unfold returned
  dsimp only
  rw [Eval.andThen_apply, Eval.attempt_apply, h]

end Run

namespace Activity

variable {host : Host} {outer inner : Activity} {fault : Fault} {after : Machine}

theorem Refuses.outcome {origin : Activity} (h : origin.Refuses fault) :
    origin.outcome host = (.error fault, origin.machine) := by
  have hcheck {m : Machine} {ctx : Context} (hdepth : m.options.maxCallDepth ≤ m.callDepth) :
      Eval.checkCallDepth ctx m =
        (.error (.eval (.callDepthExceeded m.options.maxCallDepth)), m) := by
    rw [Eval.checkCallDepth_apply, if_pos hdepth]
  cases h with
  | function function receiver args hdepth => exact Eval.andThen_apply_error (hcheck hdepth)
  | procedure procedure args hdepth => exact Eval.andThen_apply_error (hcheck hdepth)
  | file path hdepth =>
    unfold Activity.outcome
    dsimp only
    rw [Eval.includeFile_apply, if_pos hdepth]

theorem Refuses.isFatal {origin : Activity} (h : origin.Refuses fault) : fault.isFatal = true := by
  cases h <;> rfl

/-- What an evaluation begins ends it, if that ends in a fatal fault. -/
theorem Enters.unwinds (hhost : host.Steady) (h : Enters host outer inner)
    (hinner : inner.outcome host = (.error fault, after)) (hfatal : fault.isFatal = true) :
    ∃ after', outer.outcome host = (.error fault, after') ∧ after.Elsewhere after' := by
  have hctx (budget : Nat) (held : List Anchor) := Session.context_restores hhost budget held
  unfold outcome at hinner ⊢
  cases h with
  | first x f m => exact ⟨after, Eval.andThen_apply_error hinner, .refl after⟩
  | next hx => exact ⟨after, (Eval.andThen_apply_ok hx).trans hinner, .refl after⟩
  | @holding α budget held anchors x m =>
    refine ⟨after, ?_, .refl after⟩
    dsimp only at hinner ⊢
    rw [← hinner, Eval.holding_apply, Session.context_held]
    cases budget <;> rfl
  | frame file receiver bound lines m =>
    refine ⟨Eval.left m after, ?_, .left m after⟩
    dsimp only at hinner ⊢
    rw [Eval.inFrame_apply, hinner]
  | body lines m => exact ⟨after, hinner, .refl after⟩
  | lines lines inFunction m =>
    dsimp only at hinner ⊢
    rw [Run.runLines_apply]
    dsimp only
    rw [hinner]
    exact ⟨_, rfl, .mapScopes after _⟩
  | @statement budget held expr m hinside =>
    refine ⟨after, ?_, .refl after⟩
    dsimp only at hinner ⊢
    have hdepth := (Run.expressionFlow_undisturbed (hctx budget held) expr m).callDepth
    rw [hinner] at hdepth
    rw [Run.guarded_error hinner]
    exact Eval.andThen_apply_error (Eval.recover_fatal hfatal (hdepth ▸ hinside))
  | @condition budget held condition m hinside =>
    refine ⟨after, ?_, .refl after⟩
    dsimp only at hinner ⊢
    have hdepth := (Run.conditionHolds_undisturbed (hctx budget held) condition
      { m with lastIf := none }).callDepth
    rw [hinner] at hdepth
    rw [Run.enterIf_error hinner]
    exact Eval.andThen_apply_error (Eval.recover_fatal hfatal (hdepth ▸ hinside))
  | @returned budget held expr m hinside =>
    refine ⟨after, ?_, .refl after⟩
    dsimp only at hinner ⊢
    have hdepth := (Run.evalValue_undisturbed (hctx budget held) expr m).callDepth
    rw [hinner] at hdepth
    rw [Run.returned_error hinner]
    exact Eval.andThen_apply_error (Eval.recover_fatal hfatal (hdepth ▸ hinside))

/-- Everything that is under way when a fatal fault is raised ends with it, and nothing happens in
between but that calls are left. -/
theorem Leads.unwinds (hhost : host.Steady) (h : Leads host outer inner)
    (hinner : inner.outcome host = (.error fault, after)) (hfatal : fault.isFatal = true) :
    ∃ after', outer.outcome host = (.error fault, after') ∧ after.Elsewhere after' := by
  -- From the innermost evaluation outward: what began one that unwinds unwinds.
  induction h using Relation.ReflTransGen.head_induction_on with
  | refl => exact ⟨after, hinner, .refl after⟩
  | head hstep hrest ih =>
    obtain ⟨between, hbetween, helsewhere⟩ := ih
    obtain ⟨after', houter, helsewhere'⟩ := hstep.unwinds hhost hbetween hfatal
    exact ⟨after', houter, helsewhere.trans helsewhere'⟩

/-- An evaluation that restores its surroundings is left where it began when it is unwound. -/
theorem Leads.unwinds_back (hhost : host.Steady) (h : Leads host outer inner)
    (hinner : inner.outcome host = (.error fault, after)) (hfatal : fault.isFatal = true)
    (hundisturbed : outer.machine.Undisturbed (outer.outcome host).2) :
    ∃ after', outer.outcome host = (.error fault, after') ∧ outer.machine.Undisturbed after' ∧
      after' = (outer.machine.withScopes after'.env.scopes).backIn after := by
  obtain ⟨after', houter, helsewhere⟩ := h.unwinds hhost hinner hfatal
  rw [houter] at hundisturbed
  exact ⟨after', houter, hundisturbed, helsewhere.eq_backIn hundisturbed rfl⟩

/-- A call that is unwound leaves everything where its caller stood. -/
theorem Leads.frame_unwinds (hhost : host.Steady) {budget : Nat} {held : List Anchor}
    {file : String} {receiver : Option ObjectId} {bound : List (String × Eval.Bound)}
    {lines : List Text.SourceLine} {caller : Machine}
    (h : Leads host
      ⟨budget, held, Eval.inFrame file (Eval.callBody receiver bound lines), caller⟩ inner)
    (hinner : inner.outcome host = (.error fault, after)) (hfatal : fault.isFatal = true) :
    Eval.inFrame file (Eval.callBody receiver bound lines) (Session.context host budget held)
      caller = (.error fault, caller.backIn after) := by
  have hctx := Session.context_restores hhost budget held
  have hscopes := (Eval.frame_scopes hctx file receiver bound lines).apply caller
  obtain ⟨after', houter, -, hback⟩ := h.unwinds_back hhost hinner hfatal
    ((Eval.frame_undisturbed hctx file receiver bound lines).apply caller)
  change Eval.inFrame file (Eval.callBody receiver bound lines) (Session.context host budget held)
    caller = _ at houter
  rw [houter] at hscopes ⊢
  rw [hback, show after'.env.scopes = caller.env.scopes from hscopes]
  rfl

/-- The first statement of a body is reached through its frame. -/
theorem leads_statement {budget : Nat} {held : List Anchor} {lines : List Text.SourceLine}
    {number : Nat} {expr : Expr} {items : List Item} {script : Script} {m : Machine}
    (hlines : Script.ofLines lines = ⟨number, .ok (.expression expr :: items)⟩ :: script)
    (hinside : 0 < m.callDepth) (hlive : m.env.scopes.current.skipping = false) :
    Leads host ⟨budget, held, Run.runLines lines true, m⟩
      ⟨budget, held, Run.expressionFlow expr, { m with line := number }.mapScopes (·.begun)⟩ := by
  have hitem : Item.expression expr ≠ .blockOpen := by
    intro heq
    cases heq
  have hbegin := @Program.beginItem_running (Session.context host budget held)
    { m with line := number } _ hitem hlive
  refine .head (.lines lines true m) ?_
  rw [hlines]
  refine .head (.next rfl) (.head (.first _ _ _) ?_)
  refine .head (.next rfl) (.head (.first _ _ _) (.head (.first _ _ _) ?_))
  refine .head (.next hbegin) (.head (.first _ _ _) ?_)
  exact .single (.statement expr hinside)

/-- Calling a procedure by its name comes to the call. -/
theorem leads_procedure {budget : Nat} {held : List Anchor} {name : String}
    {procedure : Procedure} {m : Machine}
    (hvalue : Eval.valueBy (Eval.evalExpr (.identifier name)) (Session.context host budget held) m =
      (.ok (.atom (.procedure procedure)), m)) :
    Leads host ⟨budget, held, Run.expressionFlow (.call (.identifier name) []), m⟩
      ⟨budget, held, Eval.callProcedure procedure [], m⟩ := by
  have hcall : Eval.evalExpr (.call (.identifier name) []) =
      Eval.callWith (Eval.evalExpr (.identifier name)) (Eval.evalArguments []) := by
    simp only [Eval.evalExpr]
  refine .head (.first _ _ _) ?_
  rw [hcall]
  exact .head (.next hvalue) (.single (.next rfl))

theorem leads_body {budget : Nat} {held : List Anchor} {procedure : Procedure} {m : Machine}
    (hdepth : m.callDepth < m.options.maxCallDepth) :
    Leads host ⟨budget + 1, held, Eval.callProcedure procedure [], m⟩
      ⟨budget, held, Run.runLines procedure.body true, Eval.entered procedure.file m⟩ := by
  have hcheck : Eval.checkCallDepth (Session.context host (budget + 1) held) m = (.ok (), m) := by
    rw [Eval.checkCallDepth_apply, if_neg (Nat.not_le.mpr hdepth)]
  refine .head (.next hcheck) (.head (.first _ _ _) ?_)
  refine .head (.frame procedure.file none [] procedure.body m) ?_
  exact .head (.next rfl) (.single (.body _ _))

/-- A call too deep, or an include too deep, unwinds once. Whatever led to it ends with the fault
and does nothing more; every call on the way is left as it was entered; and the statement or
condition that all of it began in, at depth 0, goes on as any other that fails does, with one
report, made in its own file and line. -/
theorem fatal_unwinds_once (hhost : host.Steady) {origin : Activity}
    (horigin : origin.Refuses fault) :
    (∀ outer, Leads host outer origin →
      ∃ after, outer.outcome host = (.error fault, after) ∧ origin.machine.Elsewhere after) ∧
    (∀ budget held file receiver bound lines caller,
      Leads host ⟨budget, held, Eval.inFrame file (Eval.callBody receiver bound lines), caller⟩
          origin →
        Eval.inFrame file (Eval.callBody receiver bound lines) (Session.context host budget held)
          caller = (.error fault, caller.backIn origin.machine)) ∧
    (∀ budget held expr (m : Machine), m.callDepth = 0 → m.env.scopes.current.skipping = false →
      Leads host ⟨budget, held, Run.expressionFlow expr, m.mapScopes (·.begun)⟩ origin →
        ∃ scopes, m.env.scopes.Within scopes ∧ ∀ base inFunction flow rest,
          Run.runItems base inFunction flow (.expression expr :: rest)
              (Session.context host budget held) m =
            Run.failedStatement base inFunction fault rest (Session.context host budget held)
              ((m.withScopes scopes).backIn origin.machine)) ∧
    (∀ budget held condition (m : Machine), m.callDepth = 0 →
      m.env.scopes.current.skipping = false →
      Leads host ⟨budget, held, Run.conditionHolds condition,
          { m.mapScopes (·.begun) with lastIf := none }⟩ origin →
        ∃ scopes, m.env.scopes.Within scopes ∧ ∀ base inFunction flow rest,
          Run.runItems base inFunction flow (.condition condition :: rest)
              (Session.context host budget held) m =
            Run.failedCondition base inFunction fault rest (Session.context host budget held)
              (({ m with lastIf := none }.withScopes scopes).backIn origin.machine)) ∧
    (∀ ctx base inFunction flow rest (m after : Machine) (other : Fault),
      m.env.scopes.current.skipping = false → other.isFatal = false →
        (∀ expr, Run.expressionFlow expr ctx (m.mapScopes (·.begun)) = (.error other, after) →
          Run.runItems base inFunction flow (.expression expr :: rest) ctx m =
            Run.failedStatement base inFunction other rest ctx after) ∧
        ∀ condition, Run.conditionHolds condition ctx
            { m.mapScopes (·.begun) with lastIf := none } = (.error other, after) →
          Run.runItems base inFunction flow (.condition condition :: rest) ctx m =
            Run.failedCondition base inFunction other rest ctx after) := by
  have hraised := @Refuses.outcome host fault origin horigin
  have hfatal := horigin.isFatal
  refine ⟨fun outer hleads => hleads.unwinds hhost hraised hfatal, ?_, ?_, ?_, ?_⟩
  · intro budget held file receiver bound lines caller hleads
    exact hleads.frame_unwinds hhost hraised hfatal
  · intro budget held expr m hdepth hlive hleads
    obtain ⟨after, houter, hundisturbed, hback⟩ := hleads.unwinds_back hhost hraised hfatal
      (Run.expressionFlow_undisturbed (Session.context_restores hhost budget held) expr _)
    have hoverall : m.env.scopes.Within after.env.scopes :=
      (ScopeStack.Within.begun _).trans hundisturbed.scopes
    refine ⟨after.env.scopes, hoverall, fun base inFunction flow rest => ?_⟩
    change after = (m.withScopes after.env.scopes).backIn origin.machine at hback
    rw [← hback]
    exact Run.runItems_expression_fails hlive houter
      (Eval.recover_outside (hundisturbed.callDepth.trans hdepth)) flow rest
  · intro budget held condition m hdepth hlive hleads
    obtain ⟨after, houter, hundisturbed, hback⟩ := hleads.unwinds_back hhost hraised hfatal
      (Run.conditionHolds_undisturbed (Session.context_restores hhost budget held) condition _)
    have hoverall : m.env.scopes.Within after.env.scopes :=
      (ScopeStack.Within.begun _).trans hundisturbed.scopes
    refine ⟨after.env.scopes, hoverall, fun base inFunction flow rest => ?_⟩
    change after = ({ m with lastIf := none }.withScopes after.env.scopes).backIn origin.machine
      at hback
    rw [← hback]
    exact Run.runItems_condition_fails hlive houter
      (Eval.recover_outside (hundisturbed.callDepth.trans hdepth)) flow rest
  · intro ctx base inFunction flow rest m after other hlive hcommon
    have hreported := Eval.recover_common hcommon ctx after
    exact ⟨fun expr h => Run.runItems_expression_fails hlive h hreported flow rest,
      fun condition h => Run.runItems_condition_fails hlive h hreported flow rest⟩

/-- A procedure that calls itself. -/
def endless : Procedure := ⟨100, "again", [⟨1, "again()"⟩], "lib.eve", 1⟩

def again : Expr := .call (.identifier "again") []

/-- On line 3 of a file, where calls may nest once. -/
def shallow : Machine :=
  let start : Machine := .initial { Options.standard with maxCallDepth := 1 } (.shelf ⟨[]⟩)
  let declared := (Eval.define "again" (.atom (.procedure endless))
    (Session.context .none 1 []) start).2
  { declared with file := "main.eve", line := 3 }

theorem endless_script : Script.ofLines endless.body = [⟨1, .ok [.expression again]⟩] := by cbv

/-- The second call of the procedure is one too many. The first one is left, and the statement that
called it reports the fault, once and at its own place. -/
theorem endless_unwinds_once :
    let fault : Fault := .eval (.callDepthExceeded 1)
    shallow.callDepth = 0 ∧ shallow.env.scopes.current.skipping = false ∧
      (∃ origin : Activity, origin.machine.callDepth = 1 ∧ origin.Refuses fault ∧
        Leads .none ⟨1, [], Run.expressionFlow again, shallow.mapScopes (·.begun)⟩ origin) ∧
      (Run.runItems 1 false .nothing [.expression again] (Session.context .none 1 [])
        shallow).2.events = [.error (shallow.diagnostic fault.message)] := by
  intro fault
  let inside : Machine := { Eval.entered "lib.eve" (shallow.mapScopes (·.begun)) with line := 1 }
  have hleads : Leads .none ⟨1, [], Run.expressionFlow again, shallow.mapScopes (·.begun)⟩
      ⟨0, [], Eval.callProcedure endless [], inside.mapScopes (·.begun)⟩ := by
    refine (@leads_procedure .none 1 [] "again" endless _ rfl).trans ?_
    refine (leads_body (by decide)).trans ?_
    refine (leads_statement endless_script (by decide) rfl).trans ?_
    exact leads_procedure rfl
  have hrefuses : Refuses ⟨0, [], Eval.callProcedure endless [], inside.mapScopes (·.begun)⟩
      fault := .procedure endless [] (by decide)
  have hdepth : shallow.callDepth = 0 := rfl
  have hlive : shallow.env.scopes.current.skipping = false := rfl
  obtain ⟨-, -, hstatement, -, -⟩ := fatal_unwinds_once Host.none_steady hrefuses
  obtain ⟨scopes, -, hrun⟩ := hstatement 1 [] again shallow hdepth hlive hleads
  refine ⟨hdepth, hlive, ⟨_, rfl, hrefuses, hleads⟩, ?_⟩
  rw [hrun]
  unfold Run.failedStatement
  rw [Eval.andThen_apply_ok (show Eval.report fault (Session.context .none 1 []) _ = (.ok (), _)
    from rfl)]
  obtain ⟨flow, -, hfinish⟩ := @Program.finishStatement_apply 1 (Session.context .none 1 []) .error
    rfl (((shallow.withScopes scopes).backIn (inside.mapScopes (·.begun))).report fault)
  rw [Eval.andThen_apply_ok hfinish]
  rfl

end Activity

end BuildScript
