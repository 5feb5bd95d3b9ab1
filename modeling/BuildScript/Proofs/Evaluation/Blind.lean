import BuildScript.Proofs.Evaluation.Relations
import BuildScript.Run.Session

/-!
Evaluations do not see what the last `if` did. Only an `else` asks for it, and calls and includes,
which run lines with `else` in them, begin without it and bring it back.
-/

namespace BuildScript

namespace Eval

variable {α β : Type} {ctx : Context}

/-- The evaluation neither uses nor changes the outcome of the last `if`. -/
def Blind (ctx : Context) ⦃α : Type⦄ (x : Eval α) : Prop :=
  ∀ (held : List Anchor) (m : Machine) (outcome : Option Bool),
    x { ctx with held } { m with lastIf := outcome } =
      ((x { ctx with held } m).1, { (x { ctx with held } m).2 with lastIf := outcome })

namespace Blind

theorem apply {x : Eval α} (h : Blind ctx x) (m : Machine) (outcome : Option Bool) :
    x ctx { m with lastIf := outcome } = ((x ctx m).1, { (x ctx m).2 with lastIf := outcome }) :=
  h ctx.held m outcome

theorem bind {x : Eval α} {f : α → Eval β} (hx : Blind ctx x) (hf : ∀ a, Blind ctx (f a)) :
    Blind ctx (x >>= f) := by
  intro held m outcome
  rw [andThen_apply, andThen_apply, hx]
  obtain ⟨result, after⟩ := x { ctx with held } m
  cases result with
  | ok a => exact hf a held after outcome
  | error e => rfl

theorem attempt {x : Eval α} (hx : Blind ctx x) : Blind ctx (attempt x) := by
  intro held m outcome
  rw [attempt_apply, attempt_apply, hx]

theorem read {f : Machine → Eval α}
    (hread : ∀ (m : Machine) outcome, f { m with lastIf := outcome } = f m)
    (hf : ∀ m, Blind ctx (f m)) : Blind ctx (machine >>= f) := by
  intro held m outcome
  rw [andThen_apply, andThen_apply, machine_apply, machine_apply]
  dsimp only
  rw [hread m outcome]
  exact hf m held m outcome

theorem composes : Composes (Blind ctx) where
  pure _ := fun _ _ _ => rfl
  fail _ := fun _ _ _ => rfl
  bind := bind
  attempt := attempt
  holding anchors _ hx := fun held m outcome => hx (anchors ++ held) m outcome
  read hread := read fun m outcome => hread m m.env.scopes m.line outcome m.log

theorem sees : Sees (Blind ctx) where
  resolved _ := read (fun _ _ => rfl) fun _ => composes.pure _
  known _ := read (fun _ _ => rfl) fun _ => composes.pure _
  receiver := by
    refine read (fun _ _ => rfl) fun m => ?_
    split
    · exact composes.pure _
    · exact composes.raise _
  alive _ _ := fun _ _ _ => rfl

theorem reportAll (errors : List EvalError) : Blind ctx (update (·.reportAll errors)) := by
  intro held m outcome
  have hfold (m : Machine) :
      { m with lastIf := outcome }.reportAll errors =
        { m.reportAll errors with lastIf := outcome } := by
    induction errors generalizing m with
    | nil => rfl
    | cons error rest ih => exact ih (m.report (.eval error))
  rw [update_apply, update_apply, hfold]

theorem define (name : String) (value : Value) : Blind ctx (define name value) := by
  intro held m outcome
  rw [define_apply, define_apply]
  dsimp only
  cases m.env.define name value with
  | ok result => rfl
  | error e => rfl

theorem frame (file : String) (receiver : Option ObjectId) (bound : List (String × Bound))
    (lines : List Text.SourceLine) :
    Blind ctx (inFrame file (callBody receiver bound lines)) := by
  intro held m outcome
  rw [inFrame_apply, inFrame_apply]
  rfl

theorem includeFile (path : String) : Blind ctx (includeFile path) := by
  intro held m outcome
  rw [includeFile_apply, includeFile_apply]
  by_cases hdepth : m.includeDepth ≥ m.options.maxIncludeDepth
  · have hdepth' : { m with lastIf := outcome }.includeDepth ≥
        { m with lastIf := outcome }.options.maxIncludeDepth := hdepth
    rw [if_pos hdepth, if_pos hdepth']
  · have hdepth' : ¬{ m with lastIf := outcome }.includeDepth ≥
        { m with lastIf := outcome }.options.maxIncludeDepth := hdepth
    rw [if_neg hdepth, if_neg hdepth']
    dsimp only [Machine.scriptPath]
    cases m.files.readText (Path.fromScript m.file path) with
    | error e => rfl
    | ok text => rfl

theorem steps (hhost : ∀ entry args, Blind ctx (callHost entry args)) : Steps (Blind ctx) where
  toComposes := composes
  toSees := sees
  print _ := fun _ _ _ => rfl
  warn _ := fun _ _ _ => rfl
  debug _ := fun _ _ _ => rfl
  reportMessage _ := fun _ _ _ => rfl
  reportAll := reportAll
  giveIds _ := fun _ _ _ => rfl
  fileOperation _ := fun _ _ _ => rfl
  define := define
  write _ _ := fun _ _ _ => rfl
  place _ := fun _ _ _ => rfl
  callUser := composes.callUser frame
  callProcedure := composes.callProcedure frame
  includeFile := includeFile
  callHost := hhost

end Blind

end Eval

/-- An embedding program whose entry points do not see what the last `if` did, provided that the
calls back into the script do not. -/
def Host.Blind (host : Host) : Prop :=
  ∀ entry (reentry : Reentry) args (m : Machine) outcome,
    (∀ function args (m : Machine) outcome,
      reentry.callValue function args { m with lastIf := outcome } =
        ((reentry.callValue function args m).1,
          { (reentry.callValue function args m).2 with lastIf := outcome })) →
      host entry reentry args { m with lastIf := outcome } =
        ((host entry reentry args m).1, { (host entry reentry args m).2 with lastIf := outcome })

theorem Host.none_blind : Host.none.Blind := fun _ _ _ _ _ _ => rfl

/-- However deep bodies, files and returns of the embedding program nest, no evaluation sees what
the last `if` did. -/
theorem Session.context_blind {host : Host} (hhost : host.Blind) (budget : Nat)
    (held : List Anchor) : Eval.Steps (Eval.Blind (context host budget held)) := by
  induction budget generalizing held with
  | zero => exact Eval.Blind.steps fun _ _ _ _ _ => rfl
  | succ budget ih =>
    refine Eval.Blind.steps fun entry args held m outcome => ?_
    refine hhost entry _ args m outcome fun function args m outcome => ?_
    exact ((ih held).callValue function args).apply m outcome

end BuildScript
