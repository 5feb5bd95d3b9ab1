import BuildScript.Proofs.Run.Surroundings
import BuildScript.Proofs.Scopes.Levels

/-!
Names stay bound while their scope is open. No evaluation, call, include or script takes a name out
of a scope that was there before it or binds the name to another slot: all they do is to open scopes
above, to add names, and to close what they opened.
-/

namespace BuildScript

open Eval (Keeps Chains Bound entered left)

namespace ScopeStack

variable {a b c stack : ScopeStack} {level : Nat}

/-- Names keep their slots in the outermost scopes, up to the one that has so many below it. -/
def KeepsBound (level : Nat) (a b : ScopeStack) : Prop :=
  ∀ (x : Variable) (slot : Slot), x.level ≤ level → a.slotOf x = some slot → b.slotOf x = some slot

/-- A name is bound in a scope that is open. -/
theorem slotOf_level {x : Variable} {slot : Slot} (h : stack.slotOf x = some slot) :
    x.level ≤ stack.inner.length := by
  refine Nat.le_of_not_lt fun habove => ?_
  unfold slotOf at h
  rw [bindingsAt_above stack habove] at h
  cases h

namespace KeepsBound

theorem refl (level : Nat) (stack : ScopeStack) : KeepsBound level stack stack :=
  fun _ _ _ hslot => hslot

theorem trans (h : KeepsBound level a b) (h' : KeepsBound level b c) : KeepsBound level a c :=
  fun x slot hlevel hslot => h' x slot hlevel (h x slot hlevel hslot)

theorem mono {level' : Nat} (h : KeepsBound level a b) (hle : level' ≤ level) :
    KeepsBound level' a b := fun x slot hlevel => h x slot (Nat.le_trans hlevel hle)

/-- Names are bound in the scopes that are open. -/
theorem of_open (h : KeepsBound (min level a.inner.length) a b) : KeepsBound level a b :=
  fun x slot hlevel hslot => h x slot (Nat.le_min.mpr ⟨hlevel, slotOf_level hslot⟩) hslot

theorem of_bindings (h : ∀ level, b.bindingsAt level = a.bindingsAt level) :
    KeepsBound level a b := by
  intro x slot _ hslot
  unfold slotOf at hslot ⊢
  rwa [h]

/-- A name that is new in the innermost scope takes no other's place. -/
theorem addBinding {name : String} (h : stack.lookupCurrent name = none) (slot : Slot) :
    KeepsBound level stack (stack.addBinding name slot) := by
  intro x found _ hfound
  rw [slotOf_addBinding]
  split
  · rename_i hx
    subst hx
    rw [slotOf_current, h] at hfound
    cases hfound
  · exact hfound

theorem without {count : Nat} (h : min level stack.inner.length + count ≤ stack.inner.length) :
    KeepsBound level stack (stack.without count) := by
  intro x slot hlevel hslot
  have hopen := slotOf_level hslot
  unfold slotOf at hslot ⊢
  rwa [bindingsAt_without, if_pos (.inl (by omega))]

theorem singles {base : Nat} (hbase : level < base) (stack : ScopeStack) :
    KeepsBound level stack (stack.without (Run.openSingles base stack.inner)) := by
  apply without
  have hle := openSingles_le base stack.inner
  omega

theorem pop (hdepth : level + 1 < stack.depth) : KeepsBound level stack stack.pop.2 := by
  obtain ⟨inner, global⟩ := stack
  cases inner with
  | nil => exact refl _ _
  | cons scope rest =>
    have hone : min level (scope :: rest).length + 1 ≤ (scope :: rest).length := by
      simp only [depth, List.length_cons] at hdepth ⊢
      omega
    exact @without ⟨scope :: rest, global⟩ level 1 hone

theorem truncate {depth : Nat} (hdepth : level < depth) (stack : ScopeStack) :
    KeepsBound level stack (stack.truncate depth) := by
  apply without
  unfold ScopeStack.depth
  omega

theorem opened (stack : ScopeStack) : KeepsBound level stack stack.opened := by
  unfold ScopeStack.opened
  split
  · exact of_bindings (bindingsAt_mapCurrent stack fun _ => rfl)
  · exact of_bindings (bindingsAt_push stack rfl)

end KeepsBound

end ScopeStack

/-- Names keep their slots in the outermost scopes, up to the one that has so many below it. -/
def Machine.KeepsBound (level : Nat) (m m' : Machine) : Prop :=
  m.env.scopes.KeepsBound level m'.env.scopes

namespace Machine.KeepsBound

variable {level : Nat}

theorem chains : Chains (KeepsBound level) where
  refl m := .refl level m.env.scopes
  trans h h' := ScopeStack.KeepsBound.trans h h'

theorem of_scopes {m m' : Machine} (h : m'.env.scopes = m.env.scopes) : m.KeepsBound level m' := by
  unfold KeepsBound
  rw [h]
  exact .refl level _

theorem defined {m : Machine} {name : String} {value : Value} {slot : Slot} {env : Environment}
    (h : m.env.define name value = .ok (slot, env)) : m.KeepsBound level { m with env } := by
  obtain ⟨hfree, -, rfl⟩ := Environment.define_ok h
  exact .addBinding hfree _

end Machine.KeepsBound

open Machine (KeepsBound)

/-- A context in which bodies and calls of the embedding program keep names bound. -/
structure Context.KeepsBound (level : Nat) (ctx : Context) : Prop where
  runBody : ∀ held lines inFunction (m : Machine),
    m.KeepsBound level (ctx.runBody held lines inFunction m).2
  callHost : ∀ held entry args (m : Machine),
    m.KeepsBound level (ctx.callHost held entry args m).2

theorem Context.KeepsBound.mono {level level' : Nat} {ctx : Context} (h : ctx.KeepsBound level)
    (hle : level' ≤ level) : ctx.KeepsBound level' where
  runBody held lines inFunction m := (h.runBody held lines inFunction m).mono hle
  callHost held entry args m := (h.callHost held entry args m).mono hle

namespace Eval

variable {level : Nat} {ctx : Context}

theorem bind_keepsBound (name : String) (slot : Slot) :
    Keeps (KeepsBound level) ctx (bind name slot) := by
  refine KeepsBound.chains.binds fun {m env} hbind => ?_
  obtain ⟨hfree, rfl⟩ := Environment.bind_ok hbind
  exact .addBinding hfree slot

theorem define_keepsBound (name : String) (value : Value) :
    Keeps (KeepsBound level) ctx (define name value) :=
  KeepsBound.chains.defines KeepsBound.defined

theorem defineReceiver_keepsBound (id : ObjectId) :
    Keeps (KeepsBound level) ctx (defineReceiver id) := by
  refine KeepsBound.chains.bind KeepsBound.chains.machine fun m => ?_
  refine KeepsBound.chains.bind (KeepsBound.chains.update fun m => .of_scopes rfl) fun _ => ?_
  exact bind_keepsBound "this" _

theorem callBody_keepsBound (h : ctx.KeepsBound level) (receiver : Option ObjectId)
    (bound : List (String × Bound)) (lines : List Text.SourceLine) :
    Keeps (KeepsBound level) ctx (callBody receiver bound lines) :=
  KeepsBound.chains.composes.callBody bind_keepsBound define_keepsBound defineReceiver_keepsBound
    (fun lines held m => h.runBody held lines true m) receiver bound lines

theorem entered_keepsBound (file : String) (m : Machine) : m.KeepsBound level (entered file m) :=
  .of_bindings (ScopeStack.bindingsAt_push m.env.scopes rfl)

/-- A call is left with all names bound that were bound before it. -/
theorem frame_keepsBound (h : ctx.KeepsBound level) (file : String) (receiver : Option ObjectId)
    (bound : List (String × Bound)) (lines : List Text.SourceLine) :
    Keeps (KeepsBound level) ctx (inFrame file (callBody receiver bound lines)) := by
  intro held m
  rw [inFrame_apply]
  apply ScopeStack.KeepsBound.of_open
  have hentered : m.KeepsBound level (entered file m) := entered_keepsBound file m
  have hbody := hentered.trans (callBody_keepsBound h receiver bound lines held (entered file m))
  have hopen : min level m.env.scopes.inner.length < m.env.scopes.depth :=
    Nat.lt_succ_of_le (Nat.min_le_right _ _)
  exact (hbody.mono (Nat.min_le_left _ _)).trans (.truncate hopen _)

theorem includeFile_keepsBound (h : ctx.KeepsBound level) (path : String) :
    Keeps (KeepsBound level) ctx (includeFile path) := by
  intro held m
  rw [includeFile_apply]
  split
  · exact KeepsBound.chains.refl m
  · split
    · exact KeepsBound.chains.refl m
    · rename_i text htext
      have hbody := h.runBody held (Text.SourceLine.split text) false
        (opened (m.scriptPath path) { m with includeDepth := m.includeDepth + 1 })
      unfold closed
      split <;> exact hbody

theorem keepsBound_effects (h : ctx.KeepsBound level) : Effects (KeepsBound level) ctx where
  toChains := KeepsBound.chains
  emit _ _ _ := .of_scopes rfl
  reportMessage _ _ := .of_scopes rfl
  given _ _ := .of_scopes rfl
  files _ _ := .of_scopes rfl
  defined := .defined
  written _ _ _ := .of_scopes rfl
  placed _ _ := .of_scopes rfl
  frame := frame_keepsBound h
  includeFile := includeFile_keepsBound h
  callHost entry args held m := h.callHost held entry args m

end Eval

namespace Run

variable {level base : Nat} {ctx : Context}

/-- Running items closes nothing but what lies above their base. -/
theorem keepsBound_effects (h : ctx.KeepsBound level) (hbase : level < base) :
    Effects (KeepsBound level) base ctx where
  toChains := KeepsBound.chains
  lastIf _ _ := .of_scopes rfl
  reportMessage _ _ := .of_scopes rfl
  evaluated := (Eval.keepsBound_effects h).steps.evalExpr
  begun m := .of_bindings (ScopeStack.bindingsAt_mapCurrent m.env.scopes fun _ => rfl)
  conditional m _ := .of_bindings (ScopeStack.bindingsAt_push m.env.scopes rfl)
  opened m := .opened m.env.scopes
  singles m := .singles hbase m.env.scopes
  popped _ hdepth := .pop (Nat.lt_of_le_of_lt hbase hdepth)
  atLine _ _ := .of_scopes rfl
  given _ _ := .of_scopes rfl
  registered hregister := by
    unfold Machine.registerClass at hregister
    split at hregister <;> cases hregister
    exact .of_scopes rfl
  defined := .defined

theorem ended_keepsBound (base : Nat) (result : Except Fault Flow × Machine) :
    result.2.KeepsBound level (ended base result) := by
  unfold ended
  split
  · exact .of_scopes rfl
  · exact .of_scopes rfl
  · split <;> exact .of_scopes rfl

/-- What is still bound after the lines of a file or body is bound when these have ended. -/
theorem ended_truncate_keepsBound {m : Machine} (hlevel : level ≤ m.env.scopes.inner.length)
    (result : Except Fault Flow × Machine) :
    result.2.KeepsBound level
      ((ended m.env.scopes.depth result).mapScopes (·.truncate m.env.scopes.depth)) :=
  KeepsBound.chains.trans (ended_keepsBound _ result) (.truncate (Nat.lt_succ_of_le hlevel) _)

theorem runLines_keepsBound (h : ctx.KeepsBound level) (lines : List Text.SourceLine)
    (inFunction : Bool) (m : Machine) : m.KeepsBound level (runLines lines inFunction ctx m).2 := by
  rw [runLines_apply]
  apply ScopeStack.KeepsBound.of_open
  have hopen : min level m.env.scopes.inner.length < m.env.scopes.depth :=
    Nat.lt_succ_of_le (Nat.min_le_right _ _)
  have hscript := ((keepsBound_effects (h.mono (Nat.min_le_left _ _)) hopen).lines.runScript
    inFunction .nothing (.ofLines lines)).apply m
  exact hscript.trans (ended_truncate_keepsBound (Nat.min_le_right _ _) _)

end Run

/-- An embedding program whose entry points keep names bound in the outermost scopes, provided that
the ways back into the script do. A fed line keeps the global names only. -/
def Host.KeepsBound (level : Nat) (host : Host) : Prop :=
  ∀ entry (reentry : Reentry) args (m : Machine),
    (∀ text (m : Machine), m.KeepsBound 0 (reentry.evalLine text m).2) →
    (∀ function args (m : Machine), m.KeepsBound level (reentry.callValue function args m).2) →
      m.KeepsBound level (host entry reentry args m).2

theorem Host.none_keepsBound (level : Nat) : Host.none.KeepsBound level :=
  fun _ _ _ m _ _ => KeepsBound.chains.refl m

namespace Session

variable {level : Nat} {host : Host}

theorem evalLine_keepsBound {ctx : Context} (h : ctx.KeepsBound level) (text : String)
    (m : Machine) : m.KeepsBound 0 ((reentry ctx).evalLine text m).2 := by
  have hline := ((Run.keepsBound_effects (h.mono (Nat.zero_le _)) Nat.one_pos).lines.feedLine
    text).apply m
  unfold reentry
  dsimp only
  generalize feedLine text ctx m = fed at hline
  obtain ⟨result, after⟩ := fed
  cases result <;> exact hline

/-- However deep bodies, files and returns of the embedding program nest, names stay bound. -/
theorem context_keepsBound (hhost : host.KeepsBound level) (budget : Nat) (held : List Anchor) :
    (context host budget held).KeepsBound level := by
  induction budget generalizing held with
  | zero =>
    exact ⟨fun _ _ _ m => KeepsBound.chains.refl m, fun _ _ _ m => KeepsBound.chains.refl m⟩
  | succ budget ih =>
    refine ⟨fun held lines inFunction m => Run.runLines_keepsBound (ih held) lines inFunction m, ?_⟩
    intro held entry args m
    refine hhost entry _ args m (evalLine_keepsBound (ih held)) fun function args m => ?_
    exact ((Eval.keepsBound_effects (ih held)).steps.callValue function args).apply m

end Session

end BuildScript
