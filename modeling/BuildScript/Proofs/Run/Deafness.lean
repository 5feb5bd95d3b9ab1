import BuildScript.Proofs.Evaluation.Deaf
import BuildScript.Proofs.Run.Composition

/-!
Lines side by side, in two contexts and on two machines that are the same but for what they told. A
line counts the errors that are reported while it runs, so logs may only be related if as many are
reported on both sides. Running lines does not hear what was told before either, and neither do the
ways back into the interpreter.
-/

namespace BuildScript

namespace Run

open Eval (Alongside)

variable {L : Log → Log → Prop} {ctx ctx' : Context}

/-- The flow of a line, given whether errors were reported. -/
def judged (failed : Bool) : Flow → Flow
  | .giveBack value => .giveBack value
  | flow => if failed then .error else flow

theorem counted_apply (flow : Eval Flow) (ctx : Context) (m : Machine) :
    counted flow ctx m = ((flow ctx m).1.map
      (judged ((flow ctx m).2.errorCount > m.errorCount)), (flow ctx m).2) := by
  unfold counted
  rw [Eval.andThen_apply, Eval.machine_apply]
  dsimp only
  rw [Eval.andThen_apply]
  obtain ⟨result, after⟩ := flow ctx m
  cases result with
  | error fault => rfl
  | ok flow =>
    cases flow with
    | giveBack value => rfl
    | _ => simp [judged, Except.map, Eval.andThen_apply]

theorem counted_alongside (hL : Log.Keeps L) {flow : Eval Flow}
    (hflow : Alongside L ctx ctx' flow) : Alongside L ctx ctx' (counted flow) := by
  intro held m m' hm
  obtain ⟨hresult, hafter⟩ := hflow held hm
  rw [counted_apply, counted_apply]
  refine ⟨?_, hafter⟩
  dsimp only
  rw [hresult, decide_eq_decide.mpr (hm.errors_iff hL hafter)]

theorem registerTemplate_alongside (template : ClassTemplate) :
    Alongside L ctx ctx' (registerTemplate template) := by
  rintro held m _ @⟨log, hlog⟩
  cases hfind : m.classes.find? template.name with
  | some found =>
    have hfind' : (m.withLog log).classes.find? template.name = some found := hfind
    rw [registerTemplate_known hfind, registerTemplate_known hfind']
    exact ⟨rfl, .mk m hlog⟩
  | none =>
    have hfind' : (m.withLog log).classes.find? template.name = none := hfind
    rw [registerTemplate_new hfind, registerTemplate_new hfind']
    exact ⟨rfl, .mk { m with classes := m.classes ++ [template] } hlog⟩

theorem scopes_alongside : Alongside L ctx ctx' scopes :=
  Alongside.glance (fun _ _ => rfl) fun _ => Alongside.composes.pure _

theorem updateScopes_alongside (f : ScopeStack → ScopeStack) :
    Alongside L ctx ctx' (updateScopes f) :=
  Alongside.update (fun _ _ => rfl) fun _ => rfl

/-- Items and lines do the same in both contexts, but for what they tell. -/
theorem lines_alongside (hL : Log.Keeps L) (h : ctx.Alongside L ctx') (base : Nat) :
    Lines (Alongside L ctx ctx') base :=
  { (Statements.of_steps (Alongside.steps hL h)).items
      (fun hread hf => Alongside.glance (fun m log => hread m m.env.scopes log) hf)
      scopes_alongside (fun _ => Alongside.update (fun _ _ => rfl) fun _ => rfl)
      updateScopes_alongside base with
    atLine := fun _ => Alongside.update (fun _ _ => rfl) fun _ => rfl
    giveIds := (Alongside.steps hL h).giveIds
    define := Alongside.define
    registerTemplate := registerTemplate_alongside
    counted := counted_alongside hL }

/-- So do the lines of a body or a file, to their end. -/
theorem runLines_alongside (hL : Log.Keeps L) (h : ctx.Alongside L ctx')
    (lines : List Text.SourceLine) (inFunction : Bool) :
    Alongside L ctx ctx' (runLines lines inFunction) :=
  Lines.runLines (lines_alongside hL h) scopes_alongside (fun _ => updateScopes_alongside _) lines
    inFunction

end Run

/-- Ways back into the interpreter that do not hear what was told before. -/
structure Reentry.Deaf (reentry : Reentry) : Prop where
  evalLine : ∀ {flags early early'}, flags true true → ∀ text ⦃m m' : Machine⦄,
    Machine.Concurs flags early early' m m' →
      (reentry.evalLine text m).1 = (reentry.evalLine text m').1 ∧
        Machine.Concurs flags early early' (reentry.evalLine text m).2 (reentry.evalLine text m').2
  callValue : ∀ {flags early early'}, flags true true → ∀ function args ⦃m m' : Machine⦄,
    Machine.Concurs flags early early' m m' →
      Eval.Agree (Machine.Concurs flags early early') (reentry.callValue function args m)
        (reentry.callValue function args m')

/-- An embedding program that does not look at what was told before it was called, provided that
the ways back into the script do not. -/
def Host.Deaf (host : Host) : Prop :=
  ∀ {flags early early'}, flags true true → ∀ entry (reentry : Reentry) args, reentry.Deaf →
    ∀ ⦃m m' : Machine⦄, Machine.Concurs flags early early' m m' →
      Eval.Agree (Machine.Concurs flags early early') (host entry reentry args m)
        (host entry reentry args m')

theorem Host.none_deaf : Host.none.Deaf := fun _ _ _ _ _ _ _ hm => ⟨rfl, hm⟩

namespace Session

variable {ctx : Context}

theorem reentry_deaf (h : ctx.Deaf) : (reentry ctx).Deaf where
  evalLine {flags early early'} hflags text m m' hm := by
    rw [Machine.concurs_eq_abreast] at hm ⊢
    have hline := ((Run.lines_alongside (Log.Concurs.keeps hflags) (h.alongside hflags) 1).feedLine
      text).apply rfl hm
    unfold reentry
    dsimp only
    generalize feedLine text ctx m = first at hline
    generalize feedLine text ctx m' = second at hline
    obtain ⟨result, after⟩ := first
    obtain ⟨result', after'⟩ := second
    obtain ⟨hresult, hafter⟩ := hline
    obtain rfl : result = result' := hresult
    cases result with
    | ok flow => exact ⟨rfl, hafter⟩
    | error fault => exact ⟨rfl, hafter⟩
  callValue {flags early early'} hflags function args _ _ hm := by
    rw [Machine.concurs_eq_abreast] at hm ⊢
    exact ((Eval.Alongside.steps (Log.Concurs.keeps hflags) (h.alongside hflags)).callValue
      function args).apply rfl hm

/-- However deep bodies, files and returns of the embedding program nest, nothing hears what was
told before. -/
theorem context_deaf {host : Host} (hhost : host.Deaf) (budget : Nat) (held : List Anchor) :
    (context host budget held).Deaf := by
  induction budget generalizing held with
  | zero =>
    constructor
    · rintro _ _ _ - _ _ _ m _ ⟨hlog⟩
      exact ⟨rfl, .mk m hlog⟩
    · rintro _ _ _ - _ _ _ m _ ⟨hlog⟩
      exact ⟨rfl, .mk m hlog⟩
  | succ budget ih =>
    constructor
    · intro _ _ _ hflags held lines inFunction _ _ hm
      rw [Machine.concurs_eq_abreast] at hm ⊢
      exact (Run.runLines_alongside (Log.Concurs.keeps hflags) ((ih held).alongside hflags) lines
        inFunction).apply rfl hm
    · intro _ _ _ hflags held entry args _ _ hm
      exact hhost hflags entry _ args (reentry_deaf (ih held)) hm

end Session

end BuildScript
