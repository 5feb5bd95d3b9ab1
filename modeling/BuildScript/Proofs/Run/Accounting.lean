import BuildScript.Proofs.Run.Deafness
import BuildScript.Proofs.Run.Lasting

/-!
Which errors count for which file. A run is set beside one in which nothing is heard of the files
it includes: the two do the same, and what is heard in the second was told outside all includes.
-/

namespace BuildScript

open Eval (Keeps Agree closed opened)

/-- The context with files run by `plain`, of which nothing is heard. What else they do stays. -/
def Context.unheard (ctx plain : Context) : Context :=
  { ctx with
    runBody := fun held lines inFunction m =>
      if inFunction then ctx.runBody held lines true m
      else
        (.ok .nothing,
          { closed (plain.runBody held lines false m) with events := m.events }) }

/-- The context of a run in which nothing is heard of the files that it includes. -/
def Session.listening : Nat → List Anchor → Context
  | 0, held => context .none 0 held
  | budget + 1, held =>
    { context .none (budget + 1) held with
      runBody := fun held lines inFunction =>
        Run.runLines lines inFunction
          ((listening budget held).unheard (context .none budget held)) }

namespace Log

/-- Not all events are heard on the right side. -/
structure Muted (log log' : Log) : Prop where
  events : log'.events.Sublist log.events
  errorFlag : log.errorFlag = log'.errorFlag
  errorCount : log.errorCount = log'.errorCount

theorem Muted.keeps : Log.Keeps Muted where
  emit _ h := ⟨h.events.cons_cons _, h.errorFlag, h.errorCount⟩
  error _ h := ⟨h.events.cons_cons _, rfl, congrArg (· + 1) h.errorCount⟩
  counts h hlater := by rw [h.errorCount, hlater.errorCount]

/-- Every error among the events told is counted. -/
structure Tallied (told : List Event) (log later : Log) : Prop where
  events : later.events = told ++ log.events
  errorCount : later.errorCount = log.errorCount + told.countP Event.isError

/-- Any error among the events told sets the flag. -/
structure Flagged (told : List Event) (log later : Log) : Prop where
  events : later.events = told ++ log.events
  errorFlag : later.errorFlag = (log.errorFlag || told.any Event.isError)

theorem tallied_lasting : Machine.Lasting fun m m' => ∃ told, Tallied told m.log m'.log where
  refl _ := ⟨[], rfl, rfl⟩
  trans := by
    rintro a b c ⟨told, hevents, hcount⟩ ⟨more, hmore, hcount'⟩
    refine ⟨more ++ told, ?_, ?_⟩
    · rw [hmore, hevents, List.append_assoc]
    · rw [hcount', hcount, List.countP_append, Nat.add_assoc, Nat.add_comm (told.countP _)]
  emit m event hevent := by
    refine ⟨[event], rfl, ?_⟩
    rw [List.countP_singleton, hevent]
    rfl
  reportMessage _ _ := ⟨[_], rfl, rfl⟩
  grown hlog _ := hlog ▸ ⟨[], rfl, rfl⟩
  written _ _ _ := ⟨[], rfl, rfl⟩

theorem flagged_lasting : Machine.Lasting fun m m' => ∃ told, Flagged told m.log m'.log where
  refl _ := ⟨[], rfl, (Bool.or_false _).symm⟩
  trans := by
    rintro a b c ⟨told, hevents, hflag⟩ ⟨more, hmore, hflag'⟩
    refine ⟨more ++ told, ?_, ?_⟩
    · rw [hmore, hevents, List.append_assoc]
    · rw [hflag', hflag, List.any_append, Bool.or_assoc, Bool.or_comm (told.any _)]
  emit m event hevent := by
    refine ⟨[event], rfl, ?_⟩
    rw [List.any_cons, hevent, List.any_nil, Bool.or_false, Bool.or_false]
    rfl
  reportMessage m message := ⟨[.error (m.diagnostic message)], rfl, (Bool.or_true _).symm⟩
  grown hlog _ := hlog ▸ ⟨[], rfl, (Bool.or_false _).symm⟩
  written _ _ _ := ⟨[], rfl, (Bool.or_false _).symm⟩

end Log

variable {ctx plain : Context}

/-- Of an include nothing is heard: it changes neither the events nor the flag. -/
theorem Eval.includeFile_unheard (path : String) :
    Keeps (fun m m' => ∃ told, Log.Flagged told m.log m'.log) (ctx.unheard plain)
      (includeFile path) := by
  intro held m
  refine ⟨[], ?_, ?_⟩
  · rw [includeFile_apply]
    split
    · rfl
    · split <;> rfl
  · rw [List.any_nil, Bool.or_false]
    exact includeFile_errorFlag path held m

namespace Session

theorem context_holds (host : Host) (budget : Nat) (held : List Anchor) :
    (context host budget held).held = held := by
  cases budget <;> rfl

theorem listening_holds (budget : Nat) (held : List Anchor) :
    (listening budget held).held = held := by
  cases budget <;> rfl

/-- The errors that are heard of a body or a file set the flag. -/
theorem listening_flagged (budget : Nat) (held held' : List Anchor)
    (lines : List Text.SourceLine) (inFunction : Bool) (m : Machine) :
    ∃ told, Log.Flagged told m.log
      ((listening budget held).runBody held' lines inFunction m).2.log := by
  induction budget generalizing held held' lines inFunction m with
  | zero => exact Log.flagged_lasting.refl m
  | succ budget ih =>
    have hcontext : ((listening budget held').unheard (context .none budget held')).Keeps
        fun m m' => ∃ told, Log.Flagged told m.log m'.log := by
      refine ⟨fun held lines m => ih held' held lines true m, Eval.includeFile_unheard, ?_⟩
      intro _ _ _ m
      cases budget <;> exact Log.flagged_lasting.refl m
    exact Run.runLines_keeps Log.flagged_lasting hcontext lines inFunction m

/-- A file that is included does the same when nothing is heard of it. -/
theorem unheard_file (budget : Nat) (held held' : List Anchor) (lines : List Text.SourceLine)
    (name : String) (m : Machine) (log : Log) (hlog : Log.Muted m.log log) :
    let after := (context .none budget held).fileEnd held' lines name m
    let after' := ((listening budget held).unheard (context .none budget held)).fileEnd held' lines
      name (m.withLog log)
    after.errorFlag = after'.errorFlag ∧ Machine.Abreast Log.Muted (Eval.fileLeft m after)
      (Eval.fileLeft (m.withLog log) after') := by
  have hstart : Log.Concurs Eq m.log log m.log log :=
    ⟨⟨[], rfl, rfl⟩, ⟨0, rfl, rfl⟩, hlog.errorFlag⟩
  have hends := (context_deaf Host.none_deaf budget held).included hstart held' lines name
  have hmuted : ((listening budget held).unheard (context .none budget held)).fileEnd held' lines
      name (m.withLog log) =
        { (context .none budget held).fileEnd held' lines name (m.withLog log) with
          events := log.events } := rfl
  dsimp only
  rw [hmuted]
  generalize (context .none budget held).fileEnd held' lines name m = after at hends ⊢
  generalize (context .none budget held).fileEnd held' lines name (m.withLog log) = after' at hends ⊢
  obtain @⟨late, hafter⟩ := hends
  obtain ⟨told, htold, -⟩ := hafter.events
  obtain ⟨more, hmore, hmore'⟩ := hafter.errorCount
  refine ⟨hafter.errorFlag, @Machine.Abreast.mk Log.Muted (Eval.fileLeft m after)
    ⟨log.events, log.errorFlag, late.errorCount⟩ ⟨?_, hlog.errorFlag, ?_⟩⟩
  · show log.events.Sublist after.log.events
    rw [htold]
    exact hlog.events.trans (List.sublist_append_right told _)
  · show after.log.errorCount = late.errorCount
    rw [hmore, hmore', hlog.errorCount]

/-- A body or a file does the same when nothing is heard of the files that it includes. -/
theorem listening_agrees (budget : Nat) (held held' : List Anchor)
    (lines : List Text.SourceLine) (inFunction : Bool) {m m' : Machine}
    (hm : Machine.Abreast Log.Muted m m') :
    Agree (Machine.Abreast Log.Muted) ((context .none budget held).runBody held' lines inFunction m)
      ((listening budget held).runBody held' lines inFunction m') := by
  induction budget generalizing held held' lines inFunction m m' with
  | zero =>
    obtain ⟨hlog⟩ := hm
    exact ⟨rfl, .mk m hlog⟩
  | succ budget ih =>
    have hcontext : (context .none budget held').Alongside Log.Muted
        ((listening budget held').unheard (context .none budget held')) := by
      refine ⟨fun held lines _ _ hm => ih held' held lines true hm,
        Eval.Alongside.includeFile (unheard_file budget held'), ?_⟩
      rintro _ _ _ m _ ⟨hlog⟩
      cases budget <;> exact ⟨rfl, .mk m hlog⟩
    have hheld : ((listening budget held').unheard (context .none budget held')).held =
        (context .none budget held').held :=
      (listening_holds budget held').trans (context_holds .none budget held').symm
    exact (Run.runLines_alongside Log.Muted.keeps hcontext lines inFunction).apply hheld hm

/-- What was told from `m` on altogether, with every error counted, and what was told of it outside
the files that were included meanwhile. -/
structure Accounts (m after : Machine) (told own : List Event) : Prop where
  events : after.events = told ++ m.events
  errorCount : after.errorCount = m.errorCount + told.countP Event.isError
  outside : own.Sublist told

/-- A file does the same when nothing is heard of the files that it includes, and its flag says
whether errors are heard then. -/
theorem file_accounts (budget : Nat) (held held' : List Anchor) (lines : List Text.SourceLine)
    {m : Machine} (hflag : m.errorFlag = false) :
    let after := closed ((context .none budget held).runBody held' lines false m)
    ∃ told own, Accounts m after told own ∧ after.errorFlag = own.any Event.isError ∧
      closed ((listening budget held).runBody held' lines false m) =
        { after with events := own ++ m.events } := by
  have hstart : Machine.Abreast Log.Muted m m :=
    @Machine.Abreast.mk Log.Muted m m.log ⟨.refl _, rfl, rfl⟩
  have htallied := context_lasts Log.tallied_lasting (fun m flag => ⟨[], rfl, rfl⟩)
    (Host.none_keeps Log.tallied_lasting) budget held
  obtain ⟨told, htold⟩ := Eval.closed_keeps Log.tallied_lasting
    (htallied.runBody held' lines false m)
  obtain ⟨own, hown⟩ := Eval.closed_keeps Log.flagged_lasting
    (listening_flagged budget held held' lines false m)
  have hclosed := Eval.Alongside.closed Log.Muted.keeps
    (listening_agrees budget held held' lines false hstart)
  generalize closed ((context .none budget held).runBody held' lines false m) = after
    at htold hclosed ⊢
  generalize closed ((listening budget held).runBody held' lines false m) = after'
    at hown hclosed ⊢
  obtain @⟨log, hlog⟩ := hclosed
  have hevents : log.events = own ++ m.events := hown.events
  refine ⟨told, own, ⟨htold.events, htold.errorCount, ?_⟩, ?_, ?_⟩
  · have hheard := hlog.events
    rw [hevents, htold.events] at hheard
    exact (List.append_sublist_append_right m.events).mp hheard
  · have hset : log.errorFlag = (m.errorFlag || own.any Event.isError) := hown.errorFlag
    rw [hflag, Bool.false_or] at hset
    exact hlog.errorFlag.trans hset
  · rw [← hevents]
    unfold Machine.withLog
    rw [← hlog.errorFlag, ← hlog.errorCount]
    rfl

/-- Errors are accounted for, however deep calls and includes nest. A file, and a file that another
includes, counts every error it tells, and yields false exactly if one of them was told outside
the files it included in turn: those that are told as well when nothing is heard of these. The
flag agrees with what a file yields, and an include leaves it as it was. -/
theorem errors_accounted :
    (∀ (name text : String) (m : Machine),
      let ran := runSource .none name text m
      ∃ told own, Accounts m ran.2 told own ∧
        Eval.runSource name text (listening (budget m) []) m =
          (.ok ran.1, { ran.2 with events := own ++ m.events }) ∧
        (ran.1 = false ↔ ∃ event ∈ own, event.isError) ∧
        ran.2.errorFlag = !ran.1) ∧
    ∀ (budget : Nat) (held : List Anchor) (path : String) (m : Machine),
      let ran := Eval.includeFile path (context .none budget held) m
      ∃ told own, Accounts m ran.2 told own ∧
        Eval.includeFile path (listening budget held) m =
          (ran.1, { ran.2 with events := own ++ m.events }) ∧
        ran.2.errorFlag = m.errorFlag ∧
        ((∃ fault, ran = (.error fault, m) ∧ (m.includeDepth ≥ m.options.maxIncludeDepth ∨
            ∃ error, m.files.readText (m.scriptPath path) = .error error)) ∨
          ∃ ok, ran.1 = .ok ok ∧ (ok = false ↔ ∃ event ∈ own, event.isError)) := by
  have hyields (own : List Event) :
      (!own.any Event.isError) = false ↔ ∃ event ∈ own, event.isError := by
    rw [Bool.not_eq_false', List.any_eq_true]
  constructor
  · intro name text m
    obtain ⟨told, own, haccounts, hflag, hheard⟩ := file_accounts (budget m) [] []
      (Text.SourceLine.split text) (show (opened name m).errorFlag = false from rfl)
    unfold runSource run
    rw [Eval.runSource_apply, Eval.runSource_apply, context_holds, listening_holds, hheard]
    dsimp only at hflag ⊢
    rw [hflag]
    exact ⟨told, own, ⟨haccounts.events, haccounts.errorCount, haccounts.outside⟩, rfl, hyields own,
      (Bool.not_not _).symm⟩
  · intro budget held path m
    rw [Eval.includeFile_apply, Eval.includeFile_apply]
    split
    · rename_i hdepth
      refine ⟨[], [], ⟨rfl, rfl, .refl _⟩, rfl, rfl, .inl ⟨_, rfl, .inl hdepth⟩⟩
    · split
      · rename_i error hread
        exact ⟨[], [], ⟨rfl, rfl, .refl _⟩, rfl, rfl, .inl ⟨_, rfl, .inr ⟨error, hread⟩⟩⟩
      · rename_i text hread
        obtain ⟨told, own, haccounts, hflag, hheard⟩ := file_accounts budget held held
          (Text.SourceLine.split text) (show (opened (m.scriptPath path)
            { m with includeDepth := m.includeDepth + 1 }).errorFlag = false from rfl)
        rw [context_holds, listening_holds, hheard]
        dsimp only at hflag ⊢
        refine ⟨told, own, ⟨haccounts.events, haccounts.errorCount, haccounts.outside⟩, rfl, rfl,
          .inr ⟨_, rfl, ?_⟩⟩
        rw [hflag]
        exact hyields own

end Session

end BuildScript
