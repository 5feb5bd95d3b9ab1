import BuildScript.Proofs.Likeness.Evaluation
import BuildScript.Proofs.Run.Building
import BuildScript.Proofs.Run.Scripts

/-!
Going into a body or a file and coming back, on two machines that are the same but for bodies: they
stay the same.
-/

namespace BuildScript

/-- A call in which nothing was said is over without a word. -/
theorem Machine.Mute.left {file : String} {caller m : Machine}
    (h : (Eval.entered file caller).Mute m) : caller.Mute (Eval.left caller m) where
  events := h.events
  file := rfl
  line := rfl
  options := h.options
  callDepth := by simp [Eval.left, h.callDepth, Eval.entered]
  includeDepth := h.includeDepth

namespace Machine.Akin

open Eval (entered left opened closed)

variable {s t : Sight} {m m' n n' : Machine}

/-- Other scopes in both machines. -/
theorem mapScopes (h : m.Akin s m') (f : ScopeStack → ScopeStack) :
    (m.mapScopes f).Akin s (m'.mapScopes f) := by
  apply Eval.withEnv_akin h
  have hmemory : m.env.memory.recast s.left = m'.env.memory.recast s.right :=
    congrArg (fun m : Machine => m.env.memory) h
  simp only [Environment.recast, Eval.scopes_akin h, hmemory]

theorem atLine (h : m.Akin s m') (line line' : Nat) : (m.atLine line).Akin s (m'.atLine line') := h

theorem reportMessage (h : m.Akin s m') (text text' : String) :
    (m.reportMessage text).Akin s (m'.reportMessage text') :=
  congrArg (fun m : Machine => { m with errorFlag := true, errorCount := m.errorCount + 1 }) h

/-- So many faults of class bodies were told on both sides. -/
theorem tellAll (h : m.Akin s m') {faults faults' : List (Nat × Fault)}
    (hlength : faults.length = faults'.length) : (m.tellAll faults).Akin s (m'.tellAll faults') := by
  induction faults generalizing m m' faults' with
  | nil =>
    cases faults' with
    | nil => exact h
    | cons fault' faults' => cases hlength
  | cons fault faults ih =>
    cases faults' with
    | nil => cases hlength
    | cons fault' faults' =>
      have hreported : (m.reportAt fault.1 fault.2).Akin s (m'.reportAt fault'.1 fault'.2) :=
        ((h.atLine fault.1 fault'.1).reportMessage fault.2.message fault'.2.message).atLine
          m.line m'.line
      have hrest : faults.length = faults'.length := by simpa using hlength
      simp only [Machine.tellAll, List.foldl_cons] at ih ⊢
      exact ih hreported hrest

theorem entered (h : m.Akin s m') (file : String) :
    (Eval.entered file m).Akin s (Eval.entered file m') :=
  congrArg (fun m : Machine =>
    { m with file := file, lastIf := none, callDepth := m.callDepth + 1 })
    (h.mapScopes (·.push .call))

/-- A call comes back to where it was made. -/
theorem left (h : m.Akin s m') (hn : n.Akin t n') :
    (Eval.left m n).Akin t (Eval.left m' n') := by
  have hfile : m.file = m'.file := h.observe Machine.file fun _ _ => rfl
  have hlastIf : m.lastIf = m'.lastIf := h.observe Machine.lastIf fun _ _ => rfl
  have hscopes := hn.mapScopes (·.truncate m.env.scopes.depth)
  unfold Eval.left
  rw [← hfile, ← hlastIf, ← Eval.scopes_akin h]
  exact congrArg (fun n : Machine =>
    { n with file := m.file, lastIf := m.lastIf, callDepth := n.callDepth - 1 }) hscopes

theorem opened (h : m.Akin s m') (name : String) :
    (Eval.opened name m).Akin s (Eval.opened name m') :=
  congrArg (fun m : Machine => { m with file := name, errorFlag := false, lastIf := none }) h

/-- The same fault ended both files, or none. -/
theorem closed {flow flow' : Except Fault Flow} (hn : n.Akin t n') {A : Flow → Flow → Prop}
    (hpaired : Eval.Paired A flow flow') :
    (Eval.closed (flow, n)).Akin t (Eval.closed (flow', n')) := by
  cases hpaired with
  | ok _ => exact hn
  | error fault => exact hn.reportMessage fault.message fault.message

/-- The same was left open by both bodies. -/
theorem ended (base : Nat) {result result' : Except Fault Flow}
    (hpaired : Eval.Paired (Flow.Akin t) result result') (hn : n.Akin t n') :
    (Run.ended base (result, n)).Akin t (Run.ended base (result', n')) := by
  have hleft : Machine.Akin t
      (if n.env.scopes.hasOpenBlock base then n.report (.eval .unterminatedBlock) else n)
      (if n'.env.scopes.hasOpenBlock base then n'.report (.eval .unterminatedBlock) else n') := by
    rw [Eval.scopes_akin hn]
    split
    · exact hn.reportMessage _ _
    · exact hn
  cases hpaired with
  | error fault => exact hn
  | @ok flow flow' hflow =>
    cases flow <;> cases flow' <;> first | exact hn | exact hleft | cases hflow

/-- Both bodies are over. -/
theorem concluded (base : Nat) {result result' : Except Fault Flow}
    (hpaired : Eval.Paired (Flow.Akin t) result result') (hn : n.Akin t n') :
    (Run.concluded base (result, n)).2.Akin t (Run.concluded base (result', n')).2 :=
  (ended base hpaired hn).mapScopes (·.truncate base)

/-- An include comes back to where it was made. -/
theorem fileLeft (h : m.Akin s m') (hn : n.Akin t n') :
    (Eval.fileLeft m n).Akin t (Eval.fileLeft m' n') := by
  have hfile : m.file = m'.file := h.observe Machine.file fun _ _ => rfl
  have hflag : m.errorFlag = m'.errorFlag := h.observe Machine.errorFlag fun _ _ => rfl
  have hlastIf : m.lastIf = m'.lastIf := h.observe Machine.lastIf fun _ _ => rfl
  unfold Eval.fileLeft
  rw [← hfile, ← hflag, ← hlastIf]
  exact congrArg (fun n : Machine =>
    { n with
      includeDepth := n.includeDepth - 1
      file := m.file
      errorFlag := m.errorFlag
      lastIf := m.lastIf }) hn

/-- The same files are included. -/
theorem deeper (h : m.Akin s m') :
    Machine.Akin s { m with includeDepth := m.includeDepth + 1 }
      { m' with includeDepth := m'.includeDepth + 1 } :=
  congrArg (fun m : Machine => { m with includeDepth := m.includeDepth + 1 }) h

end Machine.Akin

/-- The same flow gives the same back. -/
theorem Flow.Akin.givesAkin {s : Sight} {flow flow' : Flow} (h : flow.Akin s flow') :
    Eval.GivesAkin s flow flow' := by
  rw [Eval.GivesAkin, ← Eval.givenBack_recast, ← Eval.givenBack_recast, h]

namespace Eval.Resemblance

variable {R : Sight → Machine → Machine → Prop} {ctx ctx' : Context} {s : Sight}

/-- A call that binds its parameters runs the bodies on both sides. What is bound before is bound
without a word. -/
theorem frame (h : Resemblance R) {file : String} {body body' : List Text.SourceLine}
    {receiver : Option ObjectId} {bound bound' : List (String × Bound)}
    {A : Sight → Flow → Flow → Prop} (hbound : Bound.AllAkin s bound bound')
    (hbody : ∀ {m m' inside inside' : Machine} (held : List Anchor), R s m m' →
      inside.Akin s inside' → (entered file m).Mute inside → (entered file m').Mute inside' →
      ∃ t, s ≤ t ∧
        Paired (A t) (ctx.runBody held body true inside).1
          (ctx'.runBody held body' true inside').1 ∧
        R t (left m (ctx.runBody held body true inside).2)
          (left m' (ctx'.runBody held body' true inside').2)) :
    Couples R ctx ctx' s A (inFrame file (callBody receiver bound body))
      (inFrame file (callBody receiver bound' body')) := by
  intro held m m' hR
  have hbinds : Resemblance fun t inside inside' => t = s ∧ inside.Akin t inside' ∧
      (entered file m).Mute inside ∧ (entered file m').Mute inside' :=
    { same := fun h => h.2.1
      silent := fun h hsame hmute hmute' => ⟨h.1, hsame, h.2.2.1.trans hmute, h.2.2.2.trans hmute'⟩ }
  have hopens : Couples _ ctx ctx' s Same (Eval.bindCall receiver bound)
      (Eval.bindCall receiver bound') :=
    hbinds.bindCall receiver hbound
  obtain ⟨t, -, hpaired, rfl, hinside, hmute, hmute'⟩ := hopens held (entered file m)
    (entered file m') ⟨rfl, (h.same hR).entered file, .refl _, .refl _⟩
  rw [inFrame_apply, inFrame_apply, callBody_apply, callBody_apply]
  generalize Eval.bindCall receiver bound { ctx with held } (entered file m) = opening
    at hpaired hinside hmute ⊢
  generalize Eval.bindCall receiver bound' { ctx' with held } (entered file m') = opening'
    at hpaired hinside hmute' ⊢
  obtain ⟨result, inside⟩ := opening
  obtain ⟨result', inside'⟩ := opening'
  cases hpaired with
  | error fault =>
    exact ⟨t, le_rfl, .error fault, h.silent hR ((h.same hR).left hinside) hmute.left hmute'.left⟩
  | ok _ => exact hbody held hR hinside hmute hmute'

/-- Both machines refuse an include, or both run the file. -/
theorem includeFile (h : Resemblance R) (path : String)
    (hfile : ∀ {m m' : Machine} {text : String} (held : List Anchor), R s m m' →
      m.includeDepth < m.options.maxIncludeDepth →
      m.files.readText (m.scriptPath path) = .ok text →
      ∃ t, s ≤ t ∧
        (ctx.fileEnd held (Text.SourceLine.split text) (m.scriptPath path) m).Akin t
          (ctx'.fileEnd held (Text.SourceLine.split text) (m.scriptPath path) m') ∧
        R t
          (fileLeft m (ctx.fileEnd held (Text.SourceLine.split text) (m.scriptPath path) m))
          (fileLeft m' (ctx'.fileEnd held (Text.SourceLine.split text) (m.scriptPath path) m'))) :
    Couples R ctx ctx' s Same (includeFile path) (includeFile path) := by
  intro held m m' hR
  have hm := h.same hR
  have hdepth : m.includeDepth = m'.includeDepth := hm.observe Machine.includeDepth fun _ _ => rfl
  have hoptions : m.options = m'.options := hm.observe Machine.options fun _ _ => rfl
  have hfiles : m.files = m'.files := hm.observe Machine.files fun _ _ => rfl
  have hplace : m.file = m'.file := hm.observe Machine.file fun _ _ => rfl
  have hpath : m'.scriptPath path = m.scriptPath path := by simp [Machine.scriptPath, hplace]
  have htext : m'.files.readText (m.scriptPath path) = m.files.readText (m.scriptPath path) := by
    rw [hfiles]
  rw [includeFile_apply, includeFile_apply, hpath, htext]
  by_cases hdeep : m.includeDepth ≥ m.options.maxIncludeDepth
  · have hdeep' : m'.includeDepth ≥ m'.options.maxIncludeDepth := hdepth ▸ hoptions ▸ hdeep
    rw [if_pos hdeep, if_pos hdeep', hoptions]
    exact ⟨s, le_rfl, .error _, hR⟩
  · have hdeep' : ¬m'.includeDepth ≥ m'.options.maxIncludeDepth := hdepth ▸ hoptions ▸ hdeep
    rw [if_neg hdeep, if_neg hdeep']
    cases hread : m.files.readText (m.scriptPath path) with
    | error e => exact ⟨s, le_rfl, .error _, hR⟩
    | ok text =>
      obtain ⟨t, hst, hends, hleft⟩ := hfile held hR (Nat.lt_of_not_ge hdeep) hread
      have hflag := congrArg (! ·) (hends.observe Machine.errorFlag fun _ _ => rfl)
      exact ⟨t, hst, .ok hflag, hleft⟩

end Eval.Resemblance

end BuildScript
