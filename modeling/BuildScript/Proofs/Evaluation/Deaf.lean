import BuildScript.Proofs.Evaluation.Alongside

/-!
Evaluations do not hear what was told before. They add to the log and never look at it; only an
include asks whether errors were reported, and that means its own.
-/

namespace BuildScript

/-- Two logs to which the same was added since they were `early` and `early'`. The error flags are
related as given. -/
structure Log.Concurs (flags : Bool → Bool → Prop) (early early' log log' : Log) : Prop where
  events : ∃ later, log.events = later ++ early.events ∧ log'.events = later ++ early'.events
  errorCount : ∃ more, log.errorCount = early.errorCount + more ∧
    log'.errorCount = early'.errorCount + more
  errorFlag : flags log.errorFlag log'.errorFlag

/-- Two machines that are the same but for what they told up to some time. -/
inductive Machine.Concurs (flags : Bool → Bool → Prop) (early early' : Log) :
    Machine → Machine → Prop
  | mk (m : Machine) {log : Log} (h : Log.Concurs flags early early' m.log log) :
    Machine.Concurs flags early early' m (m.withLog log)

variable {flags : Bool → Bool → Prop} {early early' log log' : Log}

/-- They are the same but for their logs, which are related. -/
theorem Machine.concurs_eq_abreast :
    Machine.Concurs flags early early' = Machine.Abreast (Log.Concurs flags early early') := by
  funext m m'
  refine propext ⟨fun h => ?_, fun h => ?_⟩
  · obtain ⟨hlog⟩ := h
    exact .mk m hlog
  · obtain ⟨hlog⟩ := h
    exact .mk m hlog

namespace Log.Concurs

theorem emit (h : Log.Concurs flags early early' log log') (event : Event) :
    Log.Concurs flags early early' { log with events := event :: log.events }
      { log' with events := event :: log'.events } := by
  obtain ⟨later, hevents, hevents'⟩ := h.events
  refine ⟨⟨event :: later, ?_, ?_⟩, h.errorCount, h.errorFlag⟩
  · exact congrArg (event :: ·) hevents
  · exact congrArg (event :: ·) hevents'

/-- An error is counted and sets both flags. -/
theorem error (h : Log.Concurs flags early early' log log') (hflags : flags true true)
    (event : Event) :
    Log.Concurs flags early early' ⟨event :: log.events, true, log.errorCount + 1⟩
      ⟨event :: log'.events, true, log'.errorCount + 1⟩ := by
  obtain ⟨more, hcount, hcount'⟩ := h.errorCount
  refine ⟨(h.emit event).events, ⟨more + 1, ?_, ?_⟩, hflags⟩
  · exact congrArg (· + 1) hcount
  · exact congrArg (· + 1) hcount'

/-- The flags may be set to any that are related. -/
theorem flagged {flags' : Bool → Bool → Prop} (h : Log.Concurs flags early early' log log')
    {flag flag' : Bool} (hflag : flags' flag flag') :
    Log.Concurs flags' early early' { log with errorFlag := flag }
      { log' with errorFlag := flag' } :=
  ⟨h.events, h.errorCount, hflag⟩

end Log.Concurs

theorem Machine.Concurs.logs {m m' : Machine} (h : Machine.Concurs flags early early' m m') :
    Log.Concurs flags early early' m.log m'.log := by
  obtain ⟨hlog⟩ := h
  exact hlog

/-- Between two times as many errors are reported in both runs. -/
theorem Log.Concurs.counts {later later' : Log} (h : Log.Concurs flags early early' log log')
    (hlater : Log.Concurs flags early early' later later') :
    later.errorCount > log.errorCount ↔ later'.errorCount > log'.errorCount := by
  obtain ⟨more, hcount, hcount'⟩ := h.errorCount
  obtain ⟨more', hlater, hlater'⟩ := hlater.errorCount
  omega

/-- Telling the same on both sides adds the same. -/
theorem Log.Concurs.keeps (hflags : flags true true) :
    Log.Keeps (Log.Concurs flags early early') :=
  ⟨fun event h => h.emit event, fun event h => h.error hflags event, Log.Concurs.counts⟩

/-- A context in which neither a body nor a call of the embedding program hears what was told
before. -/
structure Context.Deaf (ctx : Context) : Prop where
  runBody : ∀ {flags early early'}, flags true true → ∀ held lines inFunction ⦃m m' : Machine⦄,
    Machine.Concurs flags early early' m m' →
      Eval.Agree (Machine.Concurs flags early early') (ctx.runBody held lines inFunction m)
        (ctx.runBody held lines inFunction m')
  callHost : ∀ {flags early early'}, flags true true → ∀ held entry args ⦃m m' : Machine⦄,
    Machine.Concurs flags early early' m m' →
      Eval.Agree (Machine.Concurs flags early early') (ctx.callHost held entry args m)
        (ctx.callHost held entry args m')

namespace Context.Deaf

variable {ctx : Context}

/-- A file that is included begins without errors, whatever was reported before, so what it says
about its own is the same. -/
theorem included (h : ctx.Deaf) {m : Machine} (hlog : Log.Concurs flags early early' m.log log)
    (held : List Anchor) (lines : List Text.SourceLine) (name : String) :
    Machine.Abreast (Log.Concurs Eq early early') (ctx.fileEnd held lines name m)
      (ctx.fileEnd held lines name (m.withLog log)) := by
  have hopened := @Machine.Concurs.mk Eq early early'
    (Eval.opened name { m with includeDepth := m.includeDepth + 1 }) _ (hlog.flagged rfl)
  have hfile := h.runBody rfl held lines false hopened
  rw [Machine.concurs_eq_abreast] at hfile
  exact Eval.Alongside.closed (Log.Concurs.keeps rfl) hfile

theorem alongside (h : ctx.Deaf) (hflags : flags true true) :
    ctx.Alongside (Log.Concurs flags early early') ctx := by
  refine ⟨fun held lines => ?_, Eval.Alongside.includeFile ?_, fun held entry args => ?_⟩
  · rw [← Machine.concurs_eq_abreast]
    exact h.runBody hflags held lines true
  · intro held lines name m log hlog
    have hends := h.included hlog held lines name
    generalize ctx.fileEnd held lines name m = after at hends
    generalize ctx.fileEnd held lines name (m.withLog log) = after' at hends
    obtain ⟨hafter⟩ := hends
    exact ⟨hafter.errorFlag, .mk (Eval.fileLeft m after) (hafter.flagged hlog.errorFlag)⟩
  · rw [← Machine.concurs_eq_abreast]
    exact h.callHost hflags held entry args

end Context.Deaf

end BuildScript
