import BuildScript.Proofs.Evaluation.Steps

/-!
Runs side by side, in two contexts and on two machines that are the same but for what they told. No
step looks at the log, so as long as bodies and includes keep the logs related, the results are the
same and so are the machines, up to the logs.
-/

namespace BuildScript

/-- Two machines that are the same but for their logs, which are related. -/
inductive Machine.Abreast (L : Log → Log → Prop) : Machine → Machine → Prop
  | mk (m : Machine) {log : Log} (h : L m.log log) : Machine.Abreast L m (m.withLog log)

/-- A relation between logs that is kept when the same is told on both sides. As many errors are
reported on one side as on the other. -/
structure Log.Keeps (L : Log → Log → Prop) : Prop where
  emit : ∀ {log log'} event, L log log' →
    L { log with events := event :: log.events } { log' with events := event :: log'.events }
  error : ∀ {log log'} event, L log log' →
    L ⟨event :: log.events, true, log.errorCount + 1⟩
      ⟨event :: log'.events, true, log'.errorCount + 1⟩
  counts : ∀ {log log' later later'}, L log log' → L later later' →
    (later.errorCount > log.errorCount ↔ later'.errorCount > log'.errorCount)

variable {L : Log → Log → Prop} {ctx ctx' : Context}

/-- Between two times as many errors are reported on both machines. -/
theorem Machine.Abreast.errors_iff (hL : Log.Keeps L) {m m' after after' : Machine}
    (hm : Machine.Abreast L m m') (hafter : Machine.Abreast L after after') :
    after.errorCount > m.errorCount ↔ after'.errorCount > m'.errorCount := by
  obtain ⟨hlog⟩ := hm
  obtain ⟨hlater⟩ := hafter
  exact hL.counts hlog hlater

namespace Eval

variable {α β : Type}

/-- On machines that are the same but for their logs, the evaluation has the same result in both
contexts and leaves machines that are the same but for their logs. -/
def Alongside (L : Log → Log → Prop) (ctx ctx' : Context) ⦃α : Type⦄ (x : Eval α) : Prop :=
  ∀ (held : List Anchor) ⦃m m' : Machine⦄, Machine.Abreast L m m' →
    Agree (Machine.Abreast L) (x { ctx with held } m) (x { ctx' with held } m')

namespace Alongside

theorem apply {x : Eval α} (h : Alongside L ctx ctx' x) (hheld : ctx'.held = ctx.held)
    {m m' : Machine} (hm : Machine.Abreast L m m') : Agree (Machine.Abreast L) (x ctx m) (x ctx' m') := by
  have hrun := h ctx.held hm
  rwa [← hheld, show { ctx with held := ctx'.held } = ctx by rw [hheld]] at hrun

theorem bind {x : Eval α} {f : α → Eval β} (hx : Alongside L ctx ctx' x)
    (hf : ∀ a, Alongside L ctx ctx' (f a)) : Alongside L ctx ctx' (x >>= f) := by
  intro held m m' hm
  obtain ⟨hresult, hafter⟩ := hx held hm
  rw [andThen_apply, andThen_apply]
  generalize x { ctx with held } m = first at hresult hafter
  generalize x { ctx' with held } m' = second at hresult hafter
  obtain ⟨result, after⟩ := first
  obtain ⟨result', after'⟩ := second
  obtain rfl : result = result' := hresult
  cases result with
  | ok a => exact hf a held hafter
  | error fault => exact ⟨rfl, hafter⟩

theorem attempt {x : Eval α} (hx : Alongside L ctx ctx' x) :
    Alongside L ctx ctx' (attempt x) := by
  intro held m m' hm
  obtain ⟨hresult, hafter⟩ := hx held hm
  exact ⟨congrArg Except.ok hresult, hafter⟩

/-- Anything but the log is read off both machines. -/
theorem glance {f : Machine → Eval α} (hread : ∀ (m : Machine) log, f (m.withLog log) = f m)
    (hf : ∀ m, Alongside L ctx ctx' (f m)) : Alongside L ctx ctx' (machine >>= f) := by
  rintro held m _ ⟨h⟩
  rw [andThen_apply, andThen_apply, machine_apply, machine_apply]
  dsimp only
  rw [hread]
  exact hf m held (.mk m h)

/-- A change that leaves the log alone. -/
theorem update {f : Machine → Machine}
    (hf : ∀ (m : Machine) log, f (m.withLog log) = (f m).withLog log)
    (hlog : ∀ m, (f m).log = m.log) : Alongside L ctx ctx' (update f) := by
  rintro held m _ ⟨h⟩
  rw [← hlog] at h
  rw [update_apply, update_apply, hf]
  exact ⟨rfl, .mk (f m) h⟩

theorem composes : Composes (Alongside L ctx ctx') where
  pure _ := fun _ _ _ hm => ⟨rfl, hm⟩
  fail _ := fun _ _ _ hm => ⟨rfl, hm⟩
  bind := bind
  attempt := attempt
  holding anchors _ hx := fun held => hx (anchors ++ held)
  read hread := glance fun m log => hread m m.env.scopes m.line m.lastIf log

theorem sees : Sees (Alongside L ctx ctx') where
  resolved _ := glance (fun _ _ => rfl) fun _ => composes.pure _
  known _ := glance (fun _ _ => rfl) fun _ => composes.pure _
  receiver := by
    refine glance (fun _ _ => rfl) fun m => ?_
    split
    · exact composes.pure _
    · exact composes.raise _
  alive _ _ := glance (fun _ _ => rfl) fun _ => composes.bind (fun _ _ _ hm => ⟨rfl, hm⟩) fun _ =>
    composes.pure _

theorem emit (hL : Log.Keeps L) (event : Machine → Event)
    (hevent : ∀ (m : Machine) log, event (m.withLog log) = event m) :
    Alongside L ctx ctx' (Eval.update fun m => m.emit (event m)) := by
  rintro held m _ ⟨h⟩
  rw [update_apply, update_apply, hevent]
  exact ⟨rfl, .mk (m.emit (event m)) (hL.emit (event m) h)⟩

theorem reportMessage (hL : Log.Keeps L) (text : String) :
    Alongside L ctx ctx' (Eval.update (·.reportMessage text)) := by
  rintro held m _ ⟨h⟩
  exact ⟨rfl, .mk (m.reportMessage text) (hL.error (.error (m.diagnostic text)) h)⟩

theorem reportAll (hL : Log.Keeps L) (errors : List EvalError) :
    Alongside L ctx ctx' (Eval.update (·.reportAll errors)) := by
  induction errors with
  | nil => exact composes.pure ()
  | cons error rest ih => exact bind (reportMessage hL _) fun _ => ih

theorem define (name : String) (value : Value) : Alongside L ctx ctx' (define name value) := by
  rintro held m _ ⟨h⟩
  rw [define_apply, define_apply, Machine.withLog_env]
  cases m.env.define name value with
  | ok result => exact ⟨rfl, .mk { m with env := result.2 } h⟩
  | error e => exact ⟨rfl, .mk m h⟩

theorem bindName (name : String) (slot : Slot) : Alongside L ctx ctx' (Eval.bind name slot) := by
  rintro held m _ ⟨h⟩
  rw [bind_apply, bind_apply, Machine.withLog_env]
  cases m.env.bind name slot with
  | ok env => exact ⟨rfl, .mk { m with env } h⟩
  | error e => exact ⟨rfl, .mk m h⟩

theorem closed (hL : Log.Keeps L) {x x' : Except Fault Flow × Machine}
    (h : Agree (Machine.Abreast L) x x') : Machine.Abreast L (closed x) (closed x') := by
  obtain ⟨result, after⟩ := x
  obtain ⟨result', after'⟩ := x'
  obtain ⟨hresult, hafter⟩ := h
  obtain rfl : result = result' := hresult
  cases result with
  | ok flow => exact hafter
  | error fault =>
    obtain ⟨hlog⟩ := hafter
    exact .mk (after.report fault) (hL.error _ hlog)

end Alongside

end Eval

/-- Two contexts in which bodies, includes and calls of the embedding program do the same but for
what they tell. -/
structure Context.Alongside (L : Log → Log → Prop) (ctx ctx' : Context) : Prop where
  body : ∀ held lines ⦃m m' : Machine⦄, Machine.Abreast L m m' →
    Eval.Agree (Machine.Abreast L) (ctx.runBody held lines true m) (ctx'.runBody held lines true m')
  includeFile : ∀ path, Eval.Alongside L ctx ctx' (Eval.includeFile path)
  callHost : ∀ held entry args ⦃m m' : Machine⦄, Machine.Abreast L m m' →
    Eval.Agree (Machine.Abreast L) (ctx.callHost held entry args m) (ctx'.callHost held entry args m')

namespace Eval.Alongside

/-- Including does the same in both contexts if the files do, and one ends with errors of its own
where the other does. -/
theorem includeFile (h : ∀ (held : List Anchor) (lines : List Text.SourceLine) (name : String)
      (m : Machine) (log : Log), L m.log log →
        (ctx.fileEnd held lines name m).errorFlag =
            (ctx'.fileEnd held lines name (m.withLog log)).errorFlag ∧
          Machine.Abreast L (fileLeft m (ctx.fileEnd held lines name m))
            (fileLeft (m.withLog log) (ctx'.fileEnd held lines name (m.withLog log))))
    (path : String) : Alongside L ctx ctx' (includeFile path) := by
  rintro held m _ @⟨log, hlog⟩
  rw [includeFile_apply, includeFile_apply]
  by_cases hdepth : m.includeDepth ≥ m.options.maxIncludeDepth
  · have hdepth' : (m.withLog log).includeDepth ≥ (m.withLog log).options.maxIncludeDepth := hdepth
    rw [if_pos hdepth, if_pos hdepth']
    exact ⟨rfl, .mk m hlog⟩
  · have hdepth' : ¬(m.withLog log).includeDepth ≥ (m.withLog log).options.maxIncludeDepth := hdepth
    rw [if_neg hdepth, if_neg hdepth', Machine.withLog_files, Machine.withLog_scriptPath]
    cases m.files.readText (m.scriptPath path) with
    | error e => exact ⟨rfl, .mk m hlog⟩
    | ok text =>
      obtain ⟨hflag, hleft⟩ :=
        h held (Text.SourceLine.split text) (m.scriptPath path) m log hlog
      exact ⟨congrArg (fun flag => Except.ok (!flag)) hflag, hleft⟩

theorem callBody (h : ctx.Alongside L ctx') (receiver : Option ObjectId)
    (bound : List (String × Bound)) (lines : List Text.SourceLine) :
    Alongside L ctx ctx' (callBody receiver bound lines) := by
  have hreceiver (id : ObjectId) : Alongside L ctx ctx' (defineReceiver id) :=
    glance (fun _ _ => rfl) fun m => bind (update (fun _ _ => rfl) fun _ => rfl) fun _ =>
      bindName "this" _
  exact composes.callBody bindName define hreceiver
    (fun lines held _ _ hm => h.body held lines hm) receiver bound lines

theorem left {caller caller' m m' : Machine} (hcaller : Machine.Abreast L caller caller')
    (hm : Machine.Abreast L m m') : Machine.Abreast L (left caller m) (left caller' m') := by
  obtain ⟨-⟩ := hcaller
  obtain ⟨hlog⟩ := hm
  exact .mk (Eval.left caller m) hlog

theorem frame (h : ctx.Alongside L ctx') (file : String) (receiver : Option ObjectId)
    (bound : List (String × Bound)) (lines : List Text.SourceLine) :
    Alongside L ctx ctx' (inFrame file (Eval.callBody receiver bound lines)) := by
  rintro held m _ ⟨hlog⟩
  have hbody := callBody h receiver bound lines held (.mk (entered file m) hlog)
  rw [inFrame_apply, inFrame_apply]
  exact ⟨hbody.1, left (.mk m hlog) hbody.2⟩

/-- Any evaluation does the same in both contexts, but for what it tells. -/
theorem steps (hL : Log.Keeps L) (h : ctx.Alongside L ctx') : Steps (Alongside L ctx ctx') where
  toComposes := composes
  toSees := sees
  print text := emit hL (fun _ => .printed text) fun _ _ => rfl
  warn text := emit hL (fun m => .warning (m.diagnostic text)) fun _ _ => rfl
  debug text := emit hL (fun _ => .debug text) fun _ _ => rfl
  reportMessage := reportMessage hL
  reportAll := reportAll hL
  giveIds _ := update (fun _ _ => rfl) fun _ => rfl
  fileOperation _ := glance (fun _ _ => rfl) fun _ =>
    bind (update (fun _ _ => rfl) fun _ => rfl) fun _ => composes.pure _
  define := define
  write _ _ := update (fun _ _ => rfl) fun _ => rfl
  place _ := glance (fun _ _ => rfl) fun _ =>
    bind (update (fun _ _ => rfl) fun _ => rfl) fun _ => composes.pure _
  callUser := composes.callUser (frame h)
  callProcedure := composes.callProcedure (frame h)
  includeFile := h.includeFile
  callHost entry args := fun held _ _ hm => h.callHost held entry args hm

end Eval.Alongside

end BuildScript
