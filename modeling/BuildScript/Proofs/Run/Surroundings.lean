import BuildScript.Proofs.Run.Effects
import BuildScript.Run.Session

/-!
The surroundings of an evaluation: the place in the file, the outcome of the last `if`, the depths
of calls and includes, and the scopes. Calls and includes go back into the lines of a script, which
move all of these; they are restored on every way out, also when a fault unwinds the calls.
-/

namespace BuildScript

open Eval (Keeps Chains)

/-- What running lines restores: the depths and the scopes that were there. -/
structure Machine.Restores (m m' : Machine) : Prop where
  callDepth : m'.callDepth = m.callDepth
  includeDepth : m'.includeDepth = m.includeDepth
  scopes : m.env.scopes.Within m'.env.scopes

/-- What evaluating an expression restores. -/
structure Machine.Undisturbed (m m' : Machine) : Prop extends Machine.Restores m m' where
  file : m'.file = m.file
  line : m'.line = m.line
  lastIf : m'.lastIf = m.lastIf

/-- What stays of `start` while the items of a script run above its scopes. -/
structure Machine.Above (start m : Machine) : Prop where
  callDepth : m.callDepth = start.callDepth
  includeDepth : m.includeDepth = start.includeDepth
  scopes : start.env.scopes.Below m.env.scopes

namespace Machine

theorem Restores.chains : Chains Restores where
  refl _ := ⟨rfl, rfl, .refl _⟩
  trans h h' := ⟨h'.callDepth.trans h.callDepth, h'.includeDepth.trans h.includeDepth,
    h.scopes.trans h'.scopes⟩

theorem Undisturbed.chains : Chains Undisturbed where
  refl m := ⟨Restores.chains.refl m, rfl, rfl, rfl⟩
  trans h h' := ⟨Restores.chains.trans h.toRestores h'.toRestores, h'.file.trans h.file,
    h'.line.trans h.line, h'.lastIf.trans h.lastIf⟩

/-- Nothing moves when neither a scope nor the place in the file is touched. -/
theorem Undisturbed.of_eq {m m' : Machine} (hscopes : m'.env.scopes = m.env.scopes)
    (hcall : m'.callDepth = m.callDepth) (hinclude : m'.includeDepth = m.includeDepth)
    (hfile : m'.file = m.file) (hline : m'.line = m.line) (hlast : m'.lastIf = m.lastIf) :
    Undisturbed m m' :=
  ⟨⟨hcall, hinclude, hscopes ▸ .refl _⟩, hfile, hline, hlast⟩

theorem Undisturbed.defined {m : Machine} {name : String} {value : Value} {slot : Slot}
    {env : Environment} (h : m.env.define name value = .ok (slot, env)) :
    Undisturbed m { m with env } := by
  obtain ⟨-, -, rfl⟩ := Environment.define_ok h
  exact ⟨⟨rfl, rfl, .addBinding _ _ _⟩, rfl, rfl, rfl⟩

end Machine

open Machine (Restores Undisturbed Above)

/-- A context in which a body restores what running lines restores, and a call of the embedding
program what an evaluation restores. -/
structure Context.Restores (ctx : Context) : Prop where
  runBody : ∀ held lines inFunction (m : Machine),
    m.Restores (ctx.runBody held lines inFunction m).2
  callHost : ∀ held entry args (m : Machine),
    m.Undisturbed (ctx.callHost held entry args m).2

namespace Eval

variable {ctx : Context}

theorem bind_restores (name : String) (slot : Slot) : Keeps Restores ctx (bind name slot) := by
  refine Restores.chains.binds fun {m env} hbind => ?_
  obtain ⟨-, rfl⟩ := Environment.bind_ok hbind
  exact ⟨rfl, rfl, .addBinding _ _ _⟩

theorem define_restores (name : String) (value : Value) :
    Keeps Restores ctx (define name value) :=
  Restores.chains.defines fun hdefine => (Undisturbed.defined hdefine).toRestores

theorem defineReceiver_restores (id : ObjectId) : Keeps Restores ctx (defineReceiver id) := by
  refine Restores.chains.bind Restores.chains.machine fun m => ?_
  refine Restores.chains.bind (Restores.chains.update fun m => ⟨rfl, rfl, .refl _⟩) fun _ => ?_
  exact bind_restores "this" _

theorem callBody_restores (h : ctx.Restores) (receiver : Option ObjectId)
    (bound : List (String × Bound)) (lines : List Text.SourceLine) :
    Keeps Restores ctx (callBody receiver bound lines) :=
  Restores.chains.composes.callBody bind_restores define_restores defineReceiver_restores
    (fun lines held m => h.runBody held lines true m) receiver bound lines

/-- Leaving a call takes off the scope of the call and whatever lies above it. -/
theorem left_scopes {file : String} {caller m : Machine} (h : (entered file caller).Restores m) :
    (left caller m).env.scopes = caller.env.scopes := by
  have hscopes : (caller.env.scopes.push .call).Within m.env.scopes := h.scopes
  show m.env.scopes.truncate caller.env.scopes.depth = caller.env.scopes
  cases hstack : m.env.scopes with
  | mk inner names =>
    rw [hstack] at hscopes
    cases hscopes with
    | inner hkeeps =>
      have hone : caller.env.scopes.inner.length + 1 + 1 -
          max (caller.env.scopes.inner.length + 1) 1 = 1 := by omega
      unfold ScopeStack.truncate ScopeStack.depth
      rw [List.length_cons, hone]
      rfl

/-- A call adds, removes and rebinds no name in a scope that was there before it. -/
theorem frame_scopes (h : ctx.Restores) (file : String) (receiver : Option ObjectId)
    (bound : List (String × Bound)) (lines : List Text.SourceLine) :
    Keeps (fun m m' => m'.env.scopes = m.env.scopes) ctx
      (inFrame file (callBody receiver bound lines)) := by
  intro held m
  rw [inFrame_apply]
  exact left_scopes (callBody_restores h receiver bound lines held (entered file m))

theorem frame_undisturbed (h : ctx.Restores) (file : String) (receiver : Option ObjectId)
    (bound : List (String × Bound)) (lines : List Text.SourceLine) :
    Keeps Undisturbed ctx (inFrame file (callBody receiver bound lines)) := by
  intro held m
  have hscopes := frame_scopes h file receiver bound lines held m
  have hbody := callBody_restores h receiver bound lines held (entered file m)
  rw [inFrame_apply] at hscopes ⊢
  refine .of_eq hscopes ?_ hbody.includeDepth rfl rfl rfl
  show (callBody receiver bound lines { ctx with held } (entered file m)).2.callDepth - 1 =
    m.callDepth
  rw [hbody.callDepth]
  rfl

theorem closed_restores {m : Machine} {result : Except Fault Flow × Machine}
    (h : m.Restores result.2) : m.Restores (closed result) := by
  unfold closed
  split
  · exact ⟨h.callDepth, h.includeDepth, h.scopes⟩
  · exact h

theorem includeFile_undisturbed (h : ctx.Restores) (path : String) :
    Keeps Undisturbed ctx (includeFile path) := by
  intro held m
  rw [includeFile_apply]
  split
  · exact Undisturbed.chains.refl m
  · split
    · exact Undisturbed.chains.refl m
    · rename_i text htext
      have hclosed := closed_restores (h.runBody held (Text.SourceLine.split text) false
        (opened (m.scriptPath path) { m with includeDepth := m.includeDepth + 1 }))
      refine ⟨⟨hclosed.callDepth, ?_, hclosed.scopes⟩, rfl, rfl, rfl⟩
      dsimp only
      rw [hclosed.includeDepth]
      rfl

/-- An include leaves the error flag as it was. -/
theorem includeFile_errorFlag (path : String) :
    Keeps (fun m m' => m'.errorFlag = m.errorFlag) ctx (includeFile path) := by
  intro held m
  rw [includeFile_apply]
  split
  · rfl
  · split <;> rfl

theorem undisturbed_effects (h : ctx.Restores) : Effects Undisturbed ctx where
  toChains := Undisturbed.chains
  emit _ _ _ := .of_eq rfl rfl rfl rfl rfl rfl
  reportMessage _ _ := .of_eq rfl rfl rfl rfl rfl rfl
  given _ _ := .of_eq rfl rfl rfl rfl rfl rfl
  files _ _ := .of_eq rfl rfl rfl rfl rfl rfl
  defined := .defined
  written _ _ _ := .of_eq rfl rfl rfl rfl rfl rfl
  placed _ _ := .of_eq rfl rfl rfl rfl rfl rfl
  frame := frame_undisturbed h
  includeFile := includeFile_undisturbed h
  callHost entry args held m := h.callHost held entry args m

end Eval

namespace Run

variable {ctx : Context}

@[simp]
theorem scopes_apply (m : Machine) : scopes ctx m = (.ok m.env.scopes, m) := rfl

/-- The machine after the lines of a body or file, with what they left open reported. -/
def ended (base : Nat) (result : Except Fault Flow × Machine) : Machine :=
  match result.1 with
  | .ok (.giveBack _) | .error _ => result.2
  | .ok _ =>
    if result.2.env.scopes.hasOpenBlock base then result.2.report (.eval .unterminatedBlock)
    else result.2

theorem runLines_apply (lines : List Text.SourceLine) (inFunction : Bool) (m : Machine) :
    runLines lines inFunction ctx m =
      let base := m.env.scopes.depth
      let result := runScript base inFunction .nothing (.ofLines lines) ctx m
      (result.1, (ended base result).mapScopes (·.truncate base)) := by
  unfold runLines ended
  simp only [Eval.andThen_apply, scopes_apply, Eval.attempt_apply]
  obtain ⟨result, after⟩ := runScript m.env.scopes.depth inFunction .nothing (.ofLines lines) ctx m
  rcases result with fault | flow
  · rfl
  · cases flow with
    | giveBack value => rfl
    | _ =>
      dsimp only
      rw [Eval.andThen_apply, scopes_apply]
      dsimp only
      split <;> rfl

theorem Above.effects (h : ctx.Restores) (start : Machine) :
    Effects (fun m m' => start.Above m → start.Above m') start.env.scopes.depth ctx where
  refl _ h := h
  trans hab hbc h := hbc (hab h)
  atLine _ _ h := ⟨h.callDepth, h.includeDepth, h.scopes⟩
  lastIf _ _ h := ⟨h.callDepth, h.includeDepth, h.scopes⟩
  reportMessage _ _ h := ⟨h.callDepth, h.includeDepth, h.scopes⟩
  given _ _ h := ⟨h.callDepth, h.includeDepth, h.scopes⟩
  registered hregister h := by
    unfold Machine.registerClass at hregister
    split at hregister
    · cases hregister
    · cases hregister
      exact ⟨h.callDepth, h.includeDepth, h.scopes⟩
  defined hdefine h :=
    ⟨h.callDepth, h.includeDepth, h.scopes.within (Undisturbed.defined hdefine).scopes⟩
  evaluated expr held m habove := by
    have hexpr := (Eval.undisturbed_effects h).steps.evalExpr expr held m
    exact ⟨hexpr.callDepth.trans habove.callDepth, hexpr.includeDepth.trans habove.includeDepth,
      habove.scopes.within hexpr.scopes⟩
  begun _ h := ⟨h.callDepth, h.includeDepth, h.scopes.within (.begun _)⟩
  conditional _ state h := ⟨h.callDepth, h.includeDepth, h.scopes.push (.conditional state)⟩
  opened _ h := ⟨h.callDepth, h.includeDepth, h.scopes.opened⟩
  singles _ h := ⟨h.callDepth, h.includeDepth, h.scopes.singles⟩
  popped _ hdepth h := ⟨h.callDepth, h.includeDepth, h.scopes.pop hdepth⟩

/-- Whatever the lines do, they take off all scopes they opened and none that was there. -/
theorem runLines_restores (h : ctx.Restores) (lines : List Text.SourceLine) (inFunction : Bool)
    (m : Machine) : m.Restores (runLines lines inFunction ctx m).2 := by
  rw [runLines_apply]
  have habove := ((Above.effects h m).lines.runScript inFunction .nothing (.ofLines lines)).apply m
    ⟨rfl, rfl, .of_within (.refl _)⟩
  have hended : m.Above (ended m.env.scopes.depth
      (runScript m.env.scopes.depth inFunction .nothing (.ofLines lines) ctx m)) := by
    unfold ended
    split
    · exact habove
    · exact habove
    · split
      · exact ⟨habove.callDepth, habove.includeDepth, habove.scopes⟩
      · exact habove
  exact ⟨hended.callDepth, hended.includeDepth, hended.scopes.truncate⟩

end Run

/-- An item that declares nothing stays on its line. -/
theorem Run.runItem_line {ctx : Context} (h : ctx.Restores) (base : Nat) (inFunction : Bool) {item : Item}
    (hitem : ∀ header body, item ≠ .declaration header body) :
    Keeps (fun m m' => m'.line = m.line) ctx (runItem base inFunction item) := by
  have hsteps : Run.Steps (fun m m' => m'.line = m.line) base ctx :=
    { refl := fun _ => rfl
      trans := fun hab hbc => hbc.trans hab
      lastIf := fun _ _ => rfl
      reportMessage := fun _ _ => rfl
      evaluated := fun expr held m => ((Eval.undisturbed_effects h).steps.evalExpr expr held m).line
      begun := fun _ => rfl
      conditional := fun _ _ => rfl
      opened := fun _ => rfl
      singles := fun _ => rfl
      popped := fun _ _ => rfl }
  exact hsteps.items.runUndeclared inFunction hitem

/-- An embedding program whose entry points leave the surroundings of the script alone, provided
that the calls back into the script do. -/
def Host.Steady (host : Host) : Prop :=
  ∀ entry (reentry : Reentry) args (m : Machine),
    (∀ function args (m : Machine), m.Undisturbed (reentry.callValue function args m).2) →
      m.Undisturbed (host entry reentry args m).2

theorem Host.none_steady : Host.none.Steady :=
  fun _ _ _ m _ => Undisturbed.chains.refl m

namespace Session

variable {host : Host}

/-- However deep bodies, files and returns of the embedding program nest, each restores its
surroundings. -/
theorem context_restores (hhost : host.Steady) (budget : Nat) (held : List Anchor) :
    (context host budget held).Restores := by
  induction budget generalizing held with
  | zero =>
    exact ⟨fun _ _ _ m => Restores.chains.refl m, fun _ _ _ m => Undisturbed.chains.refl m⟩
  | succ budget ih =>
    refine ⟨fun held lines inFunction m => Run.runLines_restores (ih held) lines inFunction m, ?_⟩
    intro held entry args m
    refine hhost entry _ args m fun function args m => ?_
    exact ((Eval.undisturbed_effects (ih held)).steps.callValue function args).apply m

/-- The flags of a scope that pair `if` with `else`. -/
def flags (scope : Scope) : Bool × BlockState × Bool × Bool :=
  (scope.isolated, scope.state, scope.singleLine, scope.skipping)

theorem flags_eq {a b : ScopeStack} (h : a.Within b) (hwaiting : a.current.isWaiting = false) :
    b.inner.map flags = a.inner.map flags := by
  cases h with
  | global before after => rfl
  | inner hkeeps rest names =>
    unfold flags
    rw [List.map_cons, List.map_cons, hkeeps.isolated, hkeeps.state, hkeeps.skipping,
      hkeeps.singleLine hwaiting]

/-- Evaluation restores its surroundings, whether it succeeds or fails: the place in the file, the
outcome of the last `if`, both depths and every scope with its flags are what they were. A call
leaves the scopes alone altogether, with all they bind, and an include leaves the error flag as it
was. -/
theorem evaluation_restores_surroundings (hhost : host.Steady) (budget : Nat)
    (held : List Anchor) :
    (∀ (expr : Expr) (m : Machine), m.env.scopes.current.isWaiting = false →
      let after := (Eval.evalExpr expr (context host budget held) m).2
      after.file = m.file ∧ after.line = m.line ∧ after.lastIf = m.lastIf ∧
        after.callDepth = m.callDepth ∧ after.includeDepth = m.includeDepth ∧
        after.env.scopes.inner.map flags = m.env.scopes.inner.map flags) ∧
    (∀ (function : UserFunction) (receiver : Option ObjectId) (args : List Operand) (m : Machine),
      (Eval.callUser function receiver args (context host budget held) m).2.env.scopes =
        m.env.scopes) ∧
    (∀ (procedure : Procedure) (args : List Operand) (m : Machine),
      (Eval.callProcedure procedure args (context host budget held) m).2.env.scopes =
        m.env.scopes) ∧
    ∀ (path : String) (m : Machine),
      (Eval.includeFile path (context host budget held) m).2.errorFlag = m.errorFlag := by
  have hcontext := context_restores hhost budget held
  have hscopes : Chains fun m m' => m'.env.scopes = m.env.scopes :=
    ⟨fun _ => rfl, fun hab hbc => hbc.trans hab⟩
  refine ⟨?_, ?_, ?_, ?_⟩
  · intro expr m hwaiting
    have hexpr := ((Eval.undisturbed_effects hcontext).steps.evalExpr expr).apply m
    exact ⟨hexpr.file, hexpr.line, hexpr.lastIf, hexpr.callDepth, hexpr.includeDepth,
      flags_eq hexpr.scopes hwaiting⟩
  · intro function receiver args m
    exact (hscopes.composes.callUser (Eval.frame_scopes hcontext) function receiver args).apply m
  · intro procedure args m
    exact (hscopes.composes.callProcedure (Eval.frame_scopes hcontext) procedure args).apply m
  · intro path m
    exact (Eval.includeFile_errorFlag path).apply m

/-- `println(1)` in a new interpreter leaves its line and its last `if`. -/
theorem println_restores_surroundings :
    let m : Machine := .initial .standard (.shelf ⟨[]⟩)
    let after := (Eval.evalExpr (.call (.identifier "println") [.literal (.int 1)])
      (context .none 1 []) m).2
    Host.none.Steady ∧ m.env.scopes.current.isWaiting = false ∧ after.line = m.line ∧
      after.lastIf = m.lastIf := by
  intro m after
  have hwaiting : m.env.scopes.current.isWaiting = false := rfl
  obtain ⟨hexpr, -⟩ := evaluation_restores_surroundings Host.none_steady 1 []
  obtain ⟨-, hline, hlast, -⟩ := hexpr _ m hwaiting
  exact ⟨Host.none_steady, hwaiting, hline, hlast⟩

end Session

end BuildScript
