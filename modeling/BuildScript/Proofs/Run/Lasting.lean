import BuildScript.Proofs.Run.Surroundings
import BuildScript.Proofs.Storage.Placing

/-!
What lasts through a run. A relation between machines that is about storage and about what was told,
and not about scopes and places, holds across evaluations, calls and whole scripts if it holds across
every single message and every change of storage. Of such a kind is that reports are never taken back.
-/

namespace BuildScript

open Eval (Keeps Chains Bound)

/-- A relation that holds across nothing, across one thing after another, and whatever is told or
stored. -/
structure Machine.Lasting (R : Machine → Machine → Prop) : Prop extends Chains R where
  emit : ∀ m event, event.isError = false → R m (m.emit event)
  reportMessage : ∀ m message, R m (m.reportMessage message)
  grown : ∀ {m m' : Machine}, m'.log = m.log → m.env.memory.Grows m'.env.memory → R m m'
  written : ∀ (m : Machine) slot value, R m { m with env := m.env.write slot value }

open Machine (Lasting)

/-- A context in which bodies, includes and calls of the embedding program keep the relation. -/
structure Context.Keeps (R : Machine → Machine → Prop) (ctx : Context) : Prop where
  body : ∀ held lines (m : Machine), R m (ctx.runBody held lines true m).2
  includeFile : ∀ path, Eval.Keeps R ctx (Eval.includeFile path)
  callHost : ∀ held entry args (m : Machine), R m (ctx.callHost held entry args m).2

/-- A context in which whatever is run keeps the relation, a body as well as a file. -/
structure Context.Lasts (R : Machine → Machine → Prop) (ctx : Context) : Prop where
  runBody : ∀ held lines inFunction (m : Machine), R m (ctx.runBody held lines inFunction m).2
  callHost : ∀ held entry args (m : Machine), R m (ctx.callHost held entry args m).2

variable {R : Machine → Machine → Prop} {ctx : Context}

namespace Machine.Lasting

/-- Scopes and places do not matter. -/
theorem aside (hR : Lasting R) {m m' : Machine} (hlog : m'.log = m.log)
    (hmemory : m'.env.memory = m.env.memory) : R m m' :=
  hR.grown hlog (hmemory ▸ .refl _)

theorem defined (hR : Lasting R) {m : Machine} {name : String} {value : Value} {slot : Slot}
    {env : Environment} (h : m.env.define name value = .ok (slot, env)) : R m { m with env } := by
  obtain ⟨-, -, rfl⟩ := Environment.define_ok h
  exact hR.grown rfl (Memory.place_planted m.env.memory value).push.toGrows

end Machine.Lasting

namespace Eval

theorem bind_keeps (hR : Lasting R) (name : String) (slot : Slot) : Keeps R ctx (bind name slot) := by
  refine hR.binds fun {m env} hbind => ?_
  obtain ⟨-, rfl⟩ := Environment.bind_ok hbind
  exact hR.aside rfl rfl

theorem define_keeps (hR : Lasting R) (name : String) (value : Value) :
    Keeps R ctx (define name value) := hR.defines hR.defined

theorem defineReceiver_keeps (hR : Lasting R) (id : ObjectId) :
    Keeps R ctx (defineReceiver id) := by
  intro held m
  have hpushed : R m { m with
      env := { m.env with memory := (m.env.memory.push (.object id)).2 } } :=
    hR.grown rfl (Memory.grows_push m.env.memory (.object id))
  have hbound : Keeps R ctx (bind "this" (m.env.memory.push (.object id)).1) := bind_keeps hR "this" _
  exact hR.trans hpushed (hbound held _)

theorem callBody_keeps (hR : Lasting R) (h : ctx.Keeps R) (receiver : Option ObjectId)
    (bound : List (String × Bound)) (lines : List Text.SourceLine) :
    Keeps R ctx (callBody receiver bound lines) :=
  hR.composes.callBody (bind_keeps hR) (define_keeps hR) (defineReceiver_keeps hR)
    (fun lines held m => h.body held lines m) receiver bound lines

/-- The fault that ends a file is reported there. -/
theorem closed_keeps (hR : Lasting R) {m : Machine} {result : Except Fault Flow × Machine}
    (h : R m result.2) : R m (closed result) := by
  unfold closed
  split
  · exact hR.trans h (hR.reportMessage _ _)
  · exact h

/-- A file is included with an error flag of its own, so the flag must not matter. -/
theorem includeFile_keeps (hR : Lasting R)
    (hflag : ∀ (m : Machine) errorFlag, R m { m with errorFlag }) (h : ctx.Lasts R) (path : String) :
    Keeps R ctx (includeFile path) := by
  intro held m
  rw [includeFile_apply]
  split
  · exact hR.refl _
  · split
    · exact hR.refl _
    · rename_i text htext
      let start := opened (m.scriptPath path) { m with includeDepth := m.includeDepth + 1 }
      have hstart : R m start := hR.trans (hflag m false) (hR.aside rfl rfl)
      have hfile := closed_keeps hR (h.runBody held (Text.SourceLine.split text) false start)
      have hleft := hR.trans (hR.trans hstart hfile) (hflag _ m.errorFlag)
      exact hR.trans hleft (hR.aside rfl rfl)

theorem keeps_effects (hR : Lasting R) (h : ctx.Keeps R) : Effects R ctx where
  toChains := hR.toChains
  emit := hR.emit
  reportMessage := hR.reportMessage
  given _ _ := hR.aside rfl rfl
  files _ _ := hR.aside rfl rfl
  defined := hR.defined
  written := hR.written
  placed m value := hR.grown rfl (Memory.place_planted m.env.memory value).toGrows
  frame file receiver bound lines held m := by
    rw [inFrame_apply]
    have hentered : R m (entered file m) := hR.aside rfl rfl
    have hbody := callBody_keeps hR h receiver bound lines held (entered file m)
    exact hR.trans (hR.trans hentered hbody) (hR.aside rfl rfl)
  includeFile := h.includeFile
  callHost entry args held m := h.callHost held entry args m

end Eval

namespace Run

theorem keeps_effects (hR : Lasting R) (h : ctx.Keeps R) (base : Nat) : Effects R base ctx where
  toChains := hR.toChains
  lastIf _ _ := hR.aside rfl rfl
  reportMessage := hR.reportMessage
  evaluated := (Eval.keeps_effects hR h).steps.evalExpr
  begun _ := hR.aside rfl rfl
  conditional _ _ := hR.aside rfl rfl
  opened _ := hR.aside rfl rfl
  singles _ := hR.aside rfl rfl
  popped _ _ := hR.aside rfl rfl
  atLine _ _ := hR.aside rfl rfl
  given _ _ := hR.aside rfl rfl
  registered hregister := by
    unfold Machine.registerClass at hregister
    split at hregister <;> cases hregister
    exact hR.aside rfl rfl
  defined := hR.defined

theorem ended_keeps (hR : Lasting R) (base : Nat) (result : Except Fault Flow × Machine) :
    R result.2 (ended base result) := by
  unfold ended
  split
  · exact hR.refl _
  · exact hR.refl _
  · split
    · exact hR.reportMessage _ _
    · exact hR.refl _

/-- It holds across the lines of a body or a file, to their end. -/
theorem runLines_keeps (hR : Lasting R) (h : ctx.Keeps R) (lines : List Text.SourceLine)
    (inFunction : Bool) (m : Machine) : R m (runLines lines inFunction ctx m).2 := by
  rw [runLines_apply]
  have hscript := ((keeps_effects hR h m.env.scopes.depth).lines.runScript inFunction .nothing
    (.ofLines lines)).apply m
  exact hR.trans (hR.trans hscript (ended_keeps hR _ _)) (hR.aside rfl rfl)

end Run

/-- An embedding program whose entry points keep the relation, provided that the ways back into the
script do. -/
def Host.Keeps (R : Machine → Machine → Prop) (host : Host) : Prop :=
  ∀ entry (reentry : Reentry) args (m : Machine),
    (∀ text (m : Machine), R m (reentry.evalLine text m).2) →
    (∀ function args (m : Machine), R m (reentry.callValue function args m).2) →
      R m (host entry reentry args m).2

theorem Host.none_keeps (hR : Lasting R) : Host.none.Keeps R := fun _ _ _ m _ _ => hR.refl m

theorem Context.Lasts.keeps (hR : Lasting R)
    (hflag : ∀ (m : Machine) errorFlag, R m { m with errorFlag }) (h : ctx.Lasts R) : ctx.Keeps R :=
  ⟨fun held lines => h.runBody held lines true, Eval.includeFile_keeps hR hflag h, h.callHost⟩

namespace Session

theorem evalLine_keeps (hR : Lasting R) (h : ctx.Keeps R) (text : String) (m : Machine) :
    R m ((reentry ctx).evalLine text m).2 := by
  have hline := ((Run.keeps_effects hR h 1).lines.feedLine text).apply m
  unfold reentry
  dsimp only
  generalize feedLine text ctx m = fed at hline
  obtain ⟨result, after⟩ := fed
  cases result <;> exact hline

/-- It holds however deep bodies, files and returns of the embedding program nest. -/
theorem context_lasts (hR : Lasting R) (hflag : ∀ (m : Machine) errorFlag, R m { m with errorFlag })
    {host : Host} (hhost : host.Keeps R) (budget : Nat) (held : List Anchor) :
    (context host budget held).Lasts R := by
  induction budget generalizing held with
  | zero => exact ⟨fun _ _ _ m => hR.refl m, fun _ _ _ m => hR.refl m⟩
  | succ budget ih =>
    have hkeeps (held : List Anchor) := (ih held).keeps hR hflag
    refine ⟨fun held => Run.runLines_keeps hR (hkeeps held), fun held entry args m => ?_⟩
    refine hhost entry _ args m (evalLine_keeps hR (hkeeps held)) fun function args m => ?_
    exact ((Eval.keeps_effects hR (hkeeps held)).steps.callValue function args).apply m

end Session

/-! Reports are never taken back: the number of errors only grows. -/

/-- No fewer errors were reported. -/
def Machine.NoFewerErrors (m m' : Machine) : Prop := m.errorCount ≤ m'.errorCount

open Machine (NoFewerErrors)

theorem Machine.NoFewerErrors.lasting : Machine.Lasting NoFewerErrors where
  refl _ := Nat.le_refl _
  trans := Nat.le_trans
  emit _ _ _ := Nat.le_refl _
  reportMessage _ _ := Nat.le_succ _
  grown hlog _ := Nat.le_of_eq (congrArg Log.errorCount hlog).symm
  written _ _ _ := Nat.le_refl _

theorem Machine.NoFewerErrors.chains : Chains NoFewerErrors := lasting.toChains

/-- A context in which bodies and calls of the embedding program take back no reports. -/
abbrev Context.Reports (ctx : Context) : Prop := ctx.Lasts NoFewerErrors

theorem Context.Reports.keeps (h : ctx.Reports) : ctx.Keeps NoFewerErrors :=
  Context.Lasts.keeps NoFewerErrors.lasting (fun _ _ => Nat.le_refl _) h

theorem Eval.reports_effects (h : ctx.Reports) : Effects NoFewerErrors ctx :=
  keeps_effects NoFewerErrors.lasting h.keeps

theorem Run.reports_effects (h : ctx.Reports) (base : Nat) : Effects NoFewerErrors base ctx :=
  keeps_effects NoFewerErrors.lasting h.keeps base

/-- However deep a run nests, it takes back no report if the embedding program takes back none. -/
theorem Session.context_reports {host : Host} (hhost : host.Keeps NoFewerErrors) (budget : Nat)
    (held : List Anchor) : (context host budget held).Reports :=
  context_lasts NoFewerErrors.lasting (fun _ _ => Nat.le_refl _) hhost budget held

end BuildScript
