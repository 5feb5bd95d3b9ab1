import BuildScript.Proofs.Run.Composition
import BuildScript.Proofs.Evaluation.Relations
import BuildScript.Run.Session

/-!
Every run comes to an end. Calls and includes go back into the lines of a script, and each of them
uses up a part of what the machine may still nest, so a run of lines is a tree of runs of lines that
no branch of goes deeper than both limits allow. The budget of an evaluation is never used up: what
lines lead to is said here without it.
-/

namespace BuildScript

/-- Lines that begin to run. -/
structure Launch where
  held : List Anchor
  lines : List Text.SourceLine
  /-- The lines are the body of a call. Otherwise they are a file. -/
  inFunction : Bool
  machine : Machine

/-- What lines lead to. -/
abbrev Ending := Except Fault Flow × Machine

namespace Launch

/-- The context in which other lines lead to what is told, and there is no embedding program. -/
def context (told : Launch → Ending) (held : List Anchor) : Context :=
  { runBody := fun held lines inFunction m => told ⟨held, lines, inFunction, m⟩
    callHost := fun _ _ _ m => (.ok .nothing, m)
    held }

/-- What the lines lead to if those that begin meanwhile lead to what is told. -/
def run (launch : Launch) (told : Launch → Ending) : Ending :=
  Run.runLines launch.lines launch.inFunction (context told launch.held) launch.machine

end Launch

/-- The lines come to an end. All lines that begin meanwhile are among those `begun`, and come to an
end themselves: whatever is told of any others makes no difference. The list tells bodies of calls
from files among the lines that are running, innermost first, without those at the outset; no
more than so many bodies and so many files are running at any moment. -/
inductive Finishes (calls files : Nat) : List Bool → Launch → Ending → Prop
  | intro {running : List Bool} {launch : Launch} {ending : Ending} (begun : Launch → Prop)
      (endingOf : Launch → Ending) (hcalls : running.count true ≤ calls)
      (hfiles : running.count false ≤ files)
      (hbegun : ∀ inner, begun inner →
        Finishes calls files (inner.inFunction :: running) inner (endingOf inner))
      (hends : ∀ told : Launch → Ending, (∀ inner, begun inner → told inner = endingOf inner) →
        launch.run told = ending) :
      Finishes calls files running launch ending

/-- Lines come to one end only. -/
theorem Finishes.unique {calls files : Nat} {running : List Bool} {launch : Launch}
    {ending other : Ending} (h : Finishes calls files running launch ending)
    (h' : Finishes calls files running launch other) : ending = other := by
  induction h generalizing other with
  | intro begun endingOf _ _ _ hends ih =>
    obtain ⟨begun', endingOf', -, -, hbegun', hends'⟩ := h'
    classical
    -- One telling of both: where they overlap they tell the same.
    let told (inner : Launch) : Ending := if begun inner then endingOf inner else endingOf' inner
    have hfirst (inner : Launch) (hinner : begun inner) : told inner = endingOf inner :=
      if_pos hinner
    have hsecond (inner : Launch) (hinner : begun' inner) : told inner = endingOf' inner := by
      by_cases hboth : begun inner
      · rw [hfirst inner hboth]
        exact ih inner hboth (hbegun' inner hinner)
      · exact if_neg hboth
    rw [← hends told hfirst, ← hends' told hsecond]

/-- Where a machine stands between its limits. -/
structure Standing where
  callDepth : Nat
  includeDepth : Nat
  options : Options

namespace Standing

/-- The standing of a machine. -/
def of (m : Machine) : Standing := ⟨m.callDepth, m.includeDepth, m.options⟩

/-- How many more calls can nest. -/
def calls (standing : Standing) : Nat := standing.options.maxCallDepth - standing.callDepth

/-- How many more includes can nest. -/
def files (standing : Standing) : Nat := standing.options.maxIncludeDepth - standing.includeDepth

/-- In the body of a call. -/
def called (standing : Standing) : Standing :=
  { standing with callDepth := standing.callDepth + 1 }

/-- In an included file. -/
def included (standing : Standing) : Standing :=
  { standing with includeDepth := standing.includeDepth + 1 }

/-- Lines that a call or an include begins. -/
inductive Begins (standing : Standing) : Launch → Prop
  | body {held lines m} (hcalls : 0 < standing.calls) (hm : of m = standing.called) :
    Begins standing ⟨held, lines, true, m⟩
  | file {held lines m} (hfiles : 0 < standing.files) (hm : of m = standing.included) :
    Begins standing ⟨held, lines, false, m⟩

end Standing

namespace Eval

open Standing (Begins)

variable {α β : Type} {standing : Standing} {ctx ctx' : Context}

/-- On machines that stand so the evaluation does the same in both contexts, and the machine after
it stands there, too. -/
def Agrees (standing : Standing) (ctx ctx' : Context) ⦃α : Type⦄ (x : Eval α) : Prop :=
  ∀ (held : List Anchor) (m : Machine), Standing.of m = standing →
    x { ctx with held } m = x { ctx' with held } m ∧
      Standing.of (x { ctx' with held } m).2 = standing

/-- Two contexts in which lines that begin on machines that stand so lead to the same, and back to
where they began. There is no embedding program. -/
structure Alike (standing : Standing) (ctx ctx' : Context) : Prop where
  runBody : ∀ launch, Begins standing launch →
    ctx.runBody launch.held launch.lines launch.inFunction launch.machine =
        ctx'.runBody launch.held launch.lines launch.inFunction launch.machine ∧
      Standing.of (ctx'.runBody launch.held launch.lines launch.inFunction launch.machine).2 =
        Standing.of launch.machine
  callHost : ∀ held entry args m, ctx.callHost held entry args m = (.ok .nothing, m) ∧
    ctx'.callHost held entry args m = (.ok .nothing, m)

namespace Agrees

theorem update {f : Machine → Machine} (h : ∀ m, Standing.of (f m) = Standing.of m) :
    Agrees standing ctx ctx' (update f) := fun _ m hm => ⟨rfl, (h m).trans hm⟩

theorem bind {x : Eval α} {f : α → Eval β} (hx : Agrees standing ctx ctx' x)
    (hf : ∀ a, Agrees standing ctx ctx' (f a)) : Agrees standing ctx ctx' (x >>= f) := by
  intro held m hm
  obtain ⟨hsame, hstanding⟩ := hx held m hm
  rw [andThen_apply, andThen_apply, hsame]
  cases hrun : x { ctx' with held } m with
  | mk result after =>
    rw [hrun] at hstanding
    cases result with
    | ok a => exact hf a held after hstanding
    | error e => exact ⟨rfl, hstanding⟩

theorem attempt {x : Eval α} (hx : Agrees standing ctx ctx' x) :
    Agrees standing ctx ctx' (attempt x) := by
  intro held m hm
  obtain ⟨hsame, hstanding⟩ := hx held m hm
  rw [attempt_apply, attempt_apply, hsame]
  exact ⟨rfl, hstanding⟩

theorem machine : Agrees standing ctx ctx' machine := fun _ _ hm => ⟨rfl, hm⟩

theorem composes : Composes (Agrees standing ctx ctx') where
  pure _ := fun _ _ hm => ⟨rfl, hm⟩
  fail _ := fun _ _ hm => ⟨rfl, hm⟩
  bind := bind
  attempt := attempt
  holding anchors _ hx := fun held => hx (anchors ++ held)
  read _ hf := bind machine hf

theorem define (name : String) (value : Value) : Agrees standing ctx ctx' (define name value) := by
  intro held m hm
  rw [define_apply, define_apply]
  cases m.env.define name value with
  | ok result => exact ⟨rfl, hm⟩
  | error e => exact ⟨rfl, hm⟩

theorem bindName (name : String) (slot : Slot) :
    Agrees standing ctx ctx' (Eval.bind name slot) := by
  intro held m hm
  rw [bind_apply, bind_apply]
  cases m.env.bind name slot with
  | ok env => exact ⟨rfl, hm⟩
  | error e => exact ⟨rfl, hm⟩

theorem reportAll (errors : List EvalError) :
    Agrees standing ctx ctx' (Eval.update (·.reportAll errors)) := by
  apply update
  intro m
  induction errors generalizing m with
  | nil => rfl
  | cons error rest ih => exact ih (m.report (.eval error))

/-- The body of a call runs where one more call has begun. -/
theorem callBody (h : Alike standing ctx ctx') (hcalls : 0 < standing.calls)
    (receiver : Option ObjectId) (bound : List (String × Bound)) (lines : List Text.SourceLine) :
    Agrees standing.called ctx ctx' (callBody receiver bound lines) := by
  have hbody (lines : List Text.SourceLine) :
      Agrees standing.called ctx ctx' (runBody lines true) := by
    intro held m hm
    obtain ⟨hsame, hback⟩ := h.runBody ⟨held, lines, true, m⟩ (.body hcalls hm)
    exact ⟨hsame, hback.trans hm⟩
  have hreceiver (id : ObjectId) : Agrees standing.called ctx ctx' (defineReceiver id) :=
    bind machine fun m => bind (update fun _ => rfl) fun _ => bindName "this" _
  exact composes.callBody bindName define hreceiver hbody receiver bound lines

theorem frame (h : Alike standing ctx ctx') (hcalls : 0 < standing.calls) (file : String)
    (receiver : Option ObjectId) (bound : List (String × Bound)) (lines : List Text.SourceLine) :
    Agrees standing ctx ctx' (inFrame file (Eval.callBody receiver bound lines)) := by
  intro held m hm
  have hentered : Standing.of (entered file m) = standing.called := by
    rw [← hm]
    rfl
  obtain ⟨hsame, hback⟩ := callBody h hcalls receiver bound lines held (entered file m) hentered
  rw [inFrame_apply, inFrame_apply, hsame]
  refine ⟨rfl, ?_⟩
  generalize (Eval.callBody receiver bound lines { ctx' with held } (entered file m)).2 =
    after at hback
  show Standing.mk (after.callDepth - 1) after.includeDepth after.options = standing
  have hdepth : after.callDepth = standing.callDepth + 1 := congrArg Standing.callDepth hback
  have hincludes : after.includeDepth = standing.includeDepth :=
    congrArg Standing.includeDepth hback
  have hoptions : after.options = standing.options := congrArg Standing.options hback
  rw [hdepth, hincludes, hoptions]
  rfl

/-- Where no call can begin, none does. -/
theorem refused {f : Unit → Eval α} (hcalls : standing.calls = 0) :
    Agrees standing ctx ctx' (checkCallDepth >>= f) := by
  intro held m hm
  have hdepth : m.callDepth ≥ m.options.maxCallDepth := by
    subst hm
    exact Nat.le_of_sub_eq_zero hcalls
  have hcheck (held : List Anchor) (ctx : Context) : checkCallDepth { ctx with held } m =
      (.error (.eval (.callDepthExceeded m.options.maxCallDepth)), m) := by
    rw [checkCallDepth_apply, if_pos hdepth]
  rw [andThen_apply_error (hcheck held ctx), andThen_apply_error (hcheck held ctx')]
  exact ⟨rfl, hm⟩

theorem callUser (h : Alike standing ctx ctx') (function : UserFunction)
    (receiver : Option ObjectId) (args : List Operand) :
    Agrees standing ctx ctx' (callUser function receiver args) := by
  rcases Nat.eq_zero_or_pos standing.calls with hcalls | hcalls
  · exact refused hcalls
  · exact composes.callUser (frame h hcalls) function receiver args

theorem callProcedure (h : Alike standing ctx ctx') (procedure : Procedure)
    (args : List Operand) : Agrees standing ctx ctx' (callProcedure procedure args) := by
  rcases Nat.eq_zero_or_pos standing.calls with hcalls | hcalls
  · exact refused hcalls
  · exact composes.callProcedure (frame h hcalls) procedure args

theorem of_closed (result : Ending) : Standing.of (closed result) = Standing.of result.2 := by
  unfold closed
  split <;> rfl

theorem includeFile (h : Alike standing ctx ctx') (path : String) :
    Agrees standing ctx ctx' (includeFile path) := by
  intro held m hm
  rw [includeFile_apply, includeFile_apply]
  by_cases hdepth : m.includeDepth ≥ m.options.maxIncludeDepth
  · rw [if_pos hdepth, if_pos hdepth]
    exact ⟨rfl, hm⟩
  · rw [if_neg hdepth, if_neg hdepth]
    cases m.files.readText (m.scriptPath path) with
    | error e => exact ⟨rfl, hm⟩
    | ok text =>
      subst hm
      have hfiles : 0 < (Standing.of m).files := Nat.sub_pos_of_lt (Nat.lt_of_not_le hdepth)
      obtain ⟨hsame, hback⟩ := h.runBody
        ⟨held, Text.SourceLine.split text, false,
          opened (m.scriptPath path) { m with includeDepth := m.includeDepth + 1 }⟩
        (.file hfiles rfl)
      dsimp only at hsame hback ⊢
      rw [hsame]
      refine ⟨rfl, ?_⟩
      have hclosed := (of_closed _).trans hback
      generalize closed _ = after at hclosed ⊢
      show Standing.mk after.callDepth (after.includeDepth - 1) after.options = Standing.of m
      have hcall : after.callDepth = m.callDepth := congrArg Standing.callDepth hclosed
      have hincludes : after.includeDepth = m.includeDepth + 1 :=
        congrArg Standing.includeDepth hclosed
      have hoptions : after.options = m.options := congrArg Standing.options hclosed
      rw [hcall, hincludes, hoptions]
      rfl

/-- In contexts that are alike every evaluation does the same. -/
theorem steps (h : Alike standing ctx ctx') : Steps (Agrees standing ctx ctx') where
  toComposes := composes
  toSees := composes.sees machine fun _ _ hm => ⟨rfl, hm⟩
  print _ := update fun _ => rfl
  warn _ := update fun _ => rfl
  debug _ := update fun _ => rfl
  reportMessage _ := update fun _ => rfl
  reportAll := reportAll
  giveIds _ := update fun _ => rfl
  fileOperation _ := bind machine fun _ => bind (update fun _ => rfl) fun _ => composes.pure _
  define := define
  write _ _ := update fun _ => rfl
  place _ := fun _ _ hm => ⟨rfl, hm⟩
  callUser := callUser h
  callProcedure := callProcedure h
  includeFile := includeFile h
  callHost entry args := by
    intro held m hm
    obtain ⟨hfirst, hsecond⟩ := h.callHost held entry args m
    refine ⟨hfirst.trans hsecond.symm, ?_⟩
    show Standing.of (ctx'.callHost held entry args m).2 = standing
    rw [hsecond]
    exact hm

theorem registerTemplate (template : ClassTemplate) :
    Agrees standing ctx ctx' (Run.registerTemplate template) := by
  intro held m hm
  cases hfind : m.classes.find? template.name with
  | some found =>
    rw [Run.registerTemplate_known hfind, Run.registerTemplate_known hfind]
    exact ⟨rfl, hm⟩
  | none =>
    rw [Run.registerTemplate_new hfind, Run.registerTemplate_new hfind]
    exact ⟨rfl, hm⟩

/-- In contexts that are alike running lines does the same. -/
theorem runLines (h : Alike standing ctx ctx') (lines : List Text.SourceLine) (inFunction : Bool) :
    Agrees standing ctx ctx' (Run.runLines lines inFunction) := by
  have hscopes (f : ScopeStack → ScopeStack) : Agrees standing ctx ctx' (Run.updateScopes f) :=
    update fun _ => rfl
  have hread : Agrees standing ctx ctx' Run.scopes := bind machine fun _ => composes.pure _
  have hitems := (Run.Statements.of_steps (steps h)).items (fun _ hf => bind machine hf) hread
    (fun _ => update fun _ => rfl) hscopes
  refine Run.Lines.runLines (fun base => ?_) hread (fun _ => hscopes _) lines inFunction
  exact
    { hitems base with
      atLine := fun _ => update fun _ => rfl
      giveIds := (steps h).giveIds
      define := define
      registerTemplate := registerTemplate
      counted := Run.counted_of_machine composes machine }

end Agrees

end Eval

/-- Lines come to an end if those that a call or an include begins among them do. They leave the
machine where it stood. -/
theorem Finishes.of_begins {calls files : Nat} {running : List Bool} {launch : Launch}
    (endingOf : Launch → Ending) (hcalls : running.count true ≤ calls)
    (hfiles : running.count false ≤ files)
    (hbegins : ∀ inner, (Standing.of launch.machine).Begins inner →
      Finishes calls files (inner.inFunction :: running) inner (endingOf inner) ∧
        Standing.of (endingOf inner).2 = Standing.of inner.machine) :
    Finishes calls files running launch (launch.run endingOf) ∧
      Standing.of (launch.run endingOf).2 = Standing.of launch.machine := by
  have hruns (told : Launch → Ending)
      (htold : ∀ inner, (Standing.of launch.machine).Begins inner → told inner = endingOf inner) :
      launch.run told = launch.run endingOf ∧
        Standing.of (launch.run endingOf).2 = Standing.of launch.machine := by
    have halike : Eval.Alike (Standing.of launch.machine) (Launch.context told launch.held)
        (Launch.context endingOf launch.held) :=
      ⟨fun inner hinner => ⟨htold inner hinner, (hbegins inner hinner).2⟩,
        fun _ _ _ _ => ⟨rfl, rfl⟩⟩
    exact Eval.Agrees.runLines halike launch.lines launch.inFunction launch.held launch.machine rfl
  exact ⟨.intro _ endingOf hcalls hfiles (fun inner hinner => (hbegins inner hinner).1)
    fun told htold => (hruns told htold).1, (hruns endingOf fun _ _ => rfl).2⟩

namespace Session

/-- What lines lead to within a budget. -/
def endingWithin (budget : Nat) (launch : Launch) : Ending :=
  Run.runLines launch.lines launch.inFunction (context .none budget launch.held) launch.machine

theorem endingWithin_succ (budget : Nat) (launch : Launch) :
    endingWithin (budget + 1) launch = launch.run (endingWithin budget) := rfl

/-- A budget that covers what can still nest is enough. -/
theorem endingWithin_finishes {calls files : Nat} (budget : Nat) (running : List Bool)
    (launch : Launch)
    (hbudget : (Standing.of launch.machine).calls + (Standing.of launch.machine).files ≤ budget)
    (hcalls : running.count true + (Standing.of launch.machine).calls ≤ calls)
    (hfiles : running.count false + (Standing.of launch.machine).files ≤ files) :
    Finishes calls files running launch (endingWithin (budget + 1) launch) ∧
      Standing.of (endingWithin (budget + 1) launch).2 = Standing.of launch.machine := by
  induction budget generalizing running launch with
  | zero =>
    rw [endingWithin_succ]
    refine Finishes.of_begins _ (Nat.le_of_add_right_le hcalls) (Nat.le_of_add_right_le hfiles)
      fun inner hinner => ?_
    -- Nothing can begin where nothing can nest.
    cases hinner with
    | body hpositive _ => omega
    | file hpositive _ => omega
  | succ budget ih =>
    rw [endingWithin_succ]
    refine Finishes.of_begins _ (Nat.le_of_add_right_le hcalls) (Nat.le_of_add_right_le hfiles)
      fun inner hinner => ?_
    cases hinner with
    | @body held lines m hpositive hm =>
      have hless : (Standing.of m).calls + 1 = (Standing.of launch.machine).calls := by
        rw [hm]
        unfold Standing.calls at hpositive ⊢
        dsimp only [Standing.called]
        omega
      have hsame : (Standing.of m).files = (Standing.of launch.machine).files := by
        rw [hm]
        rfl
      apply ih <;> simp only [List.count_cons_self, List.count_cons_of_ne, ne_eq, reduceCtorEq,
        not_false_eq_true] <;> omega
    | @file held lines m hpositive hm =>
      have hless : (Standing.of m).files + 1 = (Standing.of launch.machine).files := by
        rw [hm]
        unfold Standing.files at hpositive ⊢
        dsimp only [Standing.included]
        omega
      have hsame : (Standing.of m).calls = (Standing.of launch.machine).calls := by
        rw [hm]
        rfl
      apply ih <;> simp only [List.count_cons_self, List.count_cons_of_ne, ne_eq, reduceCtorEq,
        not_false_eq_true] <;> omega

/-- Every text that is run comes to one end, and that is what the session gives. From a machine that
stands at no depth, no more bodies are ever running than calls may nest, and no more included files
than includes may. -/
theorem source_finishes (name text : String) (m : Machine) :
    let calls := m.options.maxCallDepth - m.callDepth
    let files := m.options.maxIncludeDepth - m.includeDepth
    let launch : Launch := ⟨[], Text.SourceLine.split text, false, Eval.opened name m⟩
    ∃ ending, Finishes calls files [] launch ending ∧
      (∀ other, Finishes calls files [] launch other → other = ending) ∧
        runSource .none name text m = (!(Eval.closed ending).errorFlag, Eval.closed ending) := by
  intro calls files launch
  have hbudget : budget m = calls + files + 4095 + 1 + 1 := by
    unfold budget hostAllowance
    omega
  have hcovers : (Standing.of launch.machine).calls + (Standing.of launch.machine).files ≤
      calls + files + 4095 := Nat.le_add_right _ _
  obtain ⟨hfinishes, -⟩ := endingWithin_finishes (calls + files + 4095) [] launch hcovers
    (Nat.le_of_eq (Nat.zero_add calls)) (Nat.le_of_eq (Nat.zero_add files))
  refine ⟨_, hfinishes, fun other hother => hother.unique hfinishes, ?_⟩
  unfold runSource run
  rw [hbudget, Eval.runSource_apply]
  rfl

end Session

end BuildScript
