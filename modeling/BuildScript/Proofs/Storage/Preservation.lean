import BuildScript.Proofs.Run.Surroundings
import BuildScript.Proofs.Storage.Variables

/-!
Nothing that a script does breaks up storage: what stands goes on standing, variables keep solid
slots, and every slot keeps its one owner. A call gives roles to the variables of its own scope;
they are gone when the scope is.
-/

namespace BuildScript

open Eval (Keeps Chains Bound)
open Environment (Tidy Trims)

namespace Memory

variable {a b : Memory}

/-- Something held on to is there, with everything inside it. -/
def Stands (memory : Memory) : Anchor → Prop
  | .slot slot => memory.Solid slot
  | .object id =>
    id < memory.objects.size ∧ ∀ field ∈ (memory.instanceOf id).fields, memory.Solid field.2

/-- What stands in the first memory stands in the second. -/
def Persists (a b : Memory) : Prop := ∀ anchor, a.Stands anchor → b.Stands anchor

theorem Persists.solid (h : a.Persists b) {slot : Slot} (hslot : a.Solid slot) : b.Solid slot :=
  h (.slot slot) hslot

theorem Persists.of_solid (hobjects : a.objects.size ≤ b.objects.size)
    (hinstance : ∀ id < a.objects.size, b.instanceOf id = a.instanceOf id)
    (hsolid : ∀ slot, a.Solid slot → b.Solid slot) : a.Persists b := by
  intro anchor hstands
  cases anchor with
  | slot slot => exact hsolid slot hstands
  | object id =>
    obtain ⟨hid, hfields⟩ := hstands
    refine ⟨Nat.lt_of_lt_of_le hid hobjects, ?_⟩
    rw [hinstance id hid]
    intro field hfield
    exact hsolid field.2 (hfields field hfield)

theorem Grows.persists (h : a.Grows b) : a.Persists b :=
  .of_solid h.objects h.instanceOf fun _ hslot => h.solid hslot

theorem write_persists (memory : Memory) (target : Slot) (value : Value) :
    memory.Persists (memory.write target value) :=
  .of_solid (place_planted memory value).objects
    (fun _ hid => instanceOf_write hid target value) fun _ hslot => hslot.write target value

end Memory

/-- What nothing that runs above the first `base` scopes breaks up. -/
structure Machine.Preserves (base : Nat) (m m' : Machine) : Prop where
  persists : m.env.memory.Persists m'.env.memory
  sound : m.env.Sound → m'.env.Sound
  tidy : ∀ roles, Tidy base roles m.env → Tidy base roles m'.env

namespace Machine

variable {base : Nat} {m m' : Machine}

theorem Preserves.chains : Chains (Preserves base) where
  refl _ := ⟨fun _ h => h, fun h => h, fun _ h => h⟩
  trans h h' := ⟨fun anchor hanchor => h'.persists anchor (h.persists anchor hanchor),
    fun hsound => h'.sound (h.sound hsound), fun roles htidy => h'.tidy roles (h.tidy roles htidy)⟩

theorem Preserves.of_env (h : m'.env = m.env) : m.Preserves base m' := by
  refine ⟨?_, ?_, ?_⟩
  · rw [h]
    exact fun _ hanchor => hanchor
  · rw [h]
    exact id
  · rw [h]
    exact fun _ htidy => htidy

/-- Opening and closing scopes. -/
theorem Preserves.trim (m : Machine) {f : ScopeStack → ScopeStack}
    (htrims : Trims base m.env.scopes (f m.env.scopes)) : m.Preserves base (m.mapScopes f) where
  persists _ hanchor := hanchor
  sound hsound := hsound.trim htrims
  tidy _ htidy := htidy.trim htrims

theorem Preserves.written (m : Machine) (slot : Slot) (value : Value) :
    m.Preserves base { m with env := m.env.write slot value } where
  persists := Memory.write_persists m.env.memory slot value
  sound hsound := hsound.store fun _ hslot => hslot.write slot value
  tidy _ htidy := htidy.write slot value

theorem Preserves.placed (m : Machine) (value : Value) :
    m.Preserves base { m with env := { m.env with memory := (m.env.memory.place value).2 } } where
  persists := (Memory.place_planted m.env.memory value).toGrows.persists
  sound hsound := hsound.store fun _ hslot =>
    (Memory.place_planted m.env.memory value).toGrows.solid hslot
  tidy _ htidy := htidy.place value

/-- A declared name gets a slot that is solid. -/
theorem Preserves.defined {name : String} {value : Value} {slot : Slot} {env : Environment}
    (h : m.env.define name value = .ok (slot, env)) :
    m.Preserves base { m with env } ∧ env.memory.Solid slot := by
  have htidy (roles : Roles) (hbefore : Tidy base roles m.env) : Tidy base roles env :=
    hbefore.define h
  obtain ⟨-, rfl, rfl⟩ := Environment.define_ok h
  have hsprouts := (Memory.place_planted m.env.memory value).push
  have hslot : (m.env.memory.alloc value).2.Solid (m.env.memory.alloc value).1 := by
    apply hsprouts.solid
    · exact (Memory.place_planted m.env.memory value).cells
    · exact Memory.push_bound _ _
  refine ⟨⟨hsprouts.toGrows.persists, ?_, htidy⟩, hslot⟩
  intro hsound
  have hstored := hsound.store fun _ hold => hsprouts.toGrows.solid hold
  exact hstored.add name hslot

end Machine

open Machine (Preserves)

/-- A context in which bodies preserve what they run above. -/
structure Context.Preserves (ctx : Context) : Prop extends ctx.Restores where
  body : ∀ base held lines inFunction (m : Machine),
    m.Preserves base (ctx.runBody held lines inFunction m).2
  host : ∀ base held entry args (m : Machine),
    m.Preserves base (ctx.callHost held entry args m).2

/-- What holds in the scope of a call: the scopes below it have the roles they had, whatever roles
the call gives out. -/
def Machine.InCall (depth : Nat) (roles : Roles) (m : Machine) : Prop :=
  m.env.scopes.inner.length = depth ∧
    ∃ roles' : Roles, (∀ x, x.level < depth → roles' x = roles x) ∧ Tidy (depth + 1) roles' m.env

/-- What preparing and running the body of a call preserves. -/
structure Machine.Carries (depth : Nat) (roles : Roles) (m m' : Machine) : Prop where
  persists : m.env.memory.Persists m'.env.memory
  inCall : m.InCall depth roles → m'.InCall depth roles

namespace Eval

open Machine (Carries InCall)

variable {ctx : Context} {base depth : Nat} {roles : Roles}

theorem carries_chains : Chains (Carries depth roles) where
  refl _ := ⟨fun _ h => h, id⟩
  trans h h' := ⟨fun anchor hanchor => h'.persists anchor (h.persists anchor hanchor),
    fun hcall => h'.inCall (h.inCall hcall)⟩

/-- A role for a variable of the call leaves those below as they are. -/
theorem set_below {roles' : Roles} (h : ∀ x : Variable, x.level < depth → roles' x = roles x)
    (name : String) (role : Role) (x : Variable) (hx : x.level < depth) :
    roles'.set ⟨depth, name⟩ role x = roles x := by
  rw [Roles.set_of_ne]
  · exact h x hx
  · rintro rfl
    exact Nat.lt_irrefl _ hx

theorem bind_carries (name : String) (slot : Slot) :
    Keeps (Carries depth roles) ctx (bind name slot) := by
  refine carries_chains.binds fun {m env} hbind => ?_
  obtain ⟨-, hadded⟩ := Environment.bind_ok hbind
  refine ⟨?_, ?_⟩
  · rw [hadded]
    exact fun _ hanchor => hanchor
  · rintro ⟨hlength, roles', hbelow, htidy⟩
    have hlevel : m.env.scopes.inner.length < depth + 1 := by omega
    have hshared := htidy.share hlevel hbind
    refine ⟨?_, _, ?_, hshared⟩
    · rw [hadded]
      exact (ScopeStack.Within.addBinding _ name slot).length_inner.trans hlength
    · rw [hlength]
      exact set_below hbelow name .parameter

theorem define_carries (name : String) (value : Value) :
    Keeps (Carries depth roles) ctx (define name value) := by
  refine carries_chains.defines fun {m slot env} hdefine => ?_
  have hpreserves : m.Preserves (depth + 1) { m with env } := (Preserves.defined hdefine).1
  refine ⟨hpreserves.persists, ?_⟩
  rintro ⟨hlength, roles', hbelow, htidy⟩
  refine ⟨?_, roles', hbelow, hpreserves.tidy roles' htidy⟩
  obtain ⟨-, -, rfl⟩ := Environment.define_ok hdefine
  exact (ScopeStack.Within.addBinding _ name slot).length_inner.trans hlength

theorem defineReceiver_carries (id : ObjectId) :
    Keeps (Carries depth roles) ctx (defineReceiver id) := by
  intro held m
  have hgrows := Memory.grows_push m.env.memory (.object id)
  rw [defineReceiver_apply]
  dsimp only
  split
  · rename_i env hbind
    obtain ⟨-, hadded⟩ := Environment.bind_ok hbind
    refine ⟨?_, ?_⟩
    · rw [hadded]
      exact hgrows.persists
    · rintro ⟨hlength, roles', hbelow, htidy⟩
      have hlevel : m.env.scopes.inner.length < depth + 1 := by omega
      have hreceived := htidy.receive hlevel hbind
      refine ⟨?_, _, ?_, hreceived⟩
      · rw [hadded]
        exact (ScopeStack.Within.addBinding m.env.scopes "this" _).length_inner.trans hlength
      · rw [hlength]
        exact set_below hbelow "this" .receiver
  · refine ⟨hgrows.persists, ?_⟩
    rintro ⟨hlength, roles', hbelow, o, hfits⟩
    obtain ⟨o', hled, -⟩ := hfits.lead ⟨depth, "this"⟩ id
    exact ⟨hlength, roles', hbelow, o', hled⟩

theorem callBody_carries (h : ctx.Preserves) (receiver : Option ObjectId)
    (bound : List (String × Bound)) (lines : List Text.SourceLine) :
    Keeps (Carries depth roles) ctx (callBody receiver bound lines) := by
  apply carries_chains.composes.callBody bind_carries define_carries defineReceiver_carries
  intro lines held m
  have hbody := h.body (depth + 1) held lines true m
  refine ⟨hbody.persists, ?_⟩
  rintro ⟨hlength, roles', hbelow, htidy⟩
  have hscopes := (h.runBody held lines true m).scopes.length_inner
  exact ⟨hscopes.trans hlength, roles', hbelow, hbody.tidy roles' htidy⟩

/-- In the scope of a call no variable plays a role yet. -/
theorem entered_tidy (file : String) {m : Machine} (h : Tidy base roles m.env) :
    Tidy (m.env.scopes.depth + 1) roles (entered file m).env := by
  obtain ⟨o, hfits⟩ := h
  have hpushed : Tidy base roles (entered file m).env :=
    Tidy.trim ⟨o, hfits⟩ (.push m.env.scopes rfl)
  exact hpushed.raise (Nat.le_succ_of_le hfits.depth) (Nat.le_refl _)

theorem frame_preserves (h : ctx.Preserves) (file : String) (receiver : Option ObjectId)
    (bound : List (String × Bound)) (lines : List Text.SourceLine) :
    Keeps (Preserves base) ctx (inFrame file (callBody receiver bound lines)) := by
  intro held m
  have hscopes := frame_scopes h.toRestores file receiver bound lines held m
  rw [inFrame_apply] at hscopes ⊢
  have hcarries (roles : Roles) :=
    @callBody_carries ctx m.env.scopes.depth roles h receiver bound lines held (entered file m)
  refine ⟨(hcarries .empty).persists, ?_, ?_⟩
  · intro hsound slot hslot
    apply (hcarries .empty).persists.solid
    apply hsound
    rwa [hscopes] at hslot
  · intro roles htidy
    have hentered : (entered file m).InCall m.env.scopes.depth roles :=
      ⟨rfl, roles, fun _ _ => rfl, entered_tidy file htidy⟩
    obtain ⟨-, roles', hbelow, hafter⟩ := (hcarries roles).inCall hentered
    obtain ⟨o, hfits⟩ := htidy
    exact hafter.leave hbelow hfits.level hfits.depth (Nat.succ_pos _)

theorem includeFile_preserves (h : ctx.Preserves) (path : String) :
    Keeps (Preserves base) ctx (includeFile path) := by
  intro held m
  rw [includeFile_apply]
  split
  · exact Preserves.chains.refl m
  · split
    · exact Preserves.chains.refl m
    · rename_i text htext
      let start := opened (m.scriptPath path) { m with includeDepth := m.includeDepth + 1 }
      have hstart : m.Preserves base start := .of_env rfl
      have hbody := h.body base held (Text.SourceLine.split text) false start
      refine Preserves.chains.trans (Preserves.chains.trans hstart hbody) ?_
      apply Preserves.of_env
      unfold closed
      split <;> rfl

theorem preserves_effects (h : ctx.Preserves) : Effects (Preserves base) ctx where
  toChains := Preserves.chains
  emit _ _ _ := .of_env rfl
  reportMessage _ _ := .of_env rfl
  given _ _ := .of_env rfl
  files _ _ := .of_env rfl
  defined hdefine := (Preserves.defined hdefine).1
  written := Preserves.written
  placed := Preserves.placed
  frame := frame_preserves h
  includeFile := includeFile_preserves h
  callHost entry args held m := h.host base held entry args m

end Eval

namespace Run

variable {ctx : Context}

theorem preserves_effects (h : ctx.Preserves) (base : Nat) : Effects (Preserves base) base ctx where
  toChains := Preserves.chains
  atLine _ _ := .of_env rfl
  lastIf _ _ := .of_env rfl
  reportMessage _ _ := .of_env rfl
  given _ _ := .of_env rfl
  registered hregister := by
    unfold Machine.registerClass at hregister
    split at hregister
    · cases hregister
    · cases hregister
      exact .of_env rfl
  defined hdefine := (Preserves.defined hdefine).1
  evaluated expr := (Eval.preserves_effects h).steps.evalExpr expr
  begun m := .trim m (.mapCurrent m.env.scopes fun _ => rfl)
  conditional m state := .trim m (.push m.env.scopes rfl)
  opened m := .trim m (.opened m.env.scopes)
  singles m := .trim m (.singles m.env.scopes)
  popped m hdepth := .trim m (.pop m.env.scopes hdepth)

theorem ended_env (base : Nat) (result : Except Fault Flow × Machine) :
    (ended base result).env = result.2.env := by
  unfold ended
  split
  · rfl
  · rfl
  · split <;> rfl

/-- Lines run above the scopes they find, whatever scopes count as those of callers. -/
theorem runLines_preserves (h : ctx.Preserves) (base : Nat) (lines : List Text.SourceLine)
    (inFunction : Bool) (m : Machine) : m.Preserves base (runLines lines inFunction ctx m).2 := by
  have hscript := ((preserves_effects h m.env.scopes.depth).lines.runScript inFunction .nothing
    (.ofLines lines)).apply m
  have hended := ended_env m.env.scopes.depth
    (runScript m.env.scopes.depth inFunction .nothing (.ofLines lines) ctx m)
  rw [runLines_apply]
  dsimp only
  generalize ended m.env.scopes.depth _ = after at hended
  have hafter : m.Preserves m.env.scopes.depth after :=
    Preserves.chains.trans hscript (.of_env hended)
  have htrims (depth : Nat) (hdepth : depth ≤ m.env.scopes.depth) :
      Trims depth after.env.scopes (after.env.scopes.truncate m.env.scopes.depth) :=
    .truncate after.env.scopes hdepth
  refine ⟨hafter.persists, ?_, ?_⟩
  · intro hsound
    exact (hafter.sound hsound).trim (htrims _ (Nat.le_refl _))
  · intro roles htidy
    obtain ⟨o, hfits⟩ := htidy
    have hraised : Tidy m.env.scopes.depth roles m.env :=
      Tidy.raise ⟨o, hfits⟩ hfits.depth (Nat.le_refl _)
    have hlowered := (hafter.tidy roles hraised).lower hfits.depth hfits.level
    exact hlowered.trim (htrims base hfits.depth)

end Run

/-- Without an embedding program, bodies and files preserve storage however deep they nest. -/
theorem Session.context_preserves (budget : Nat) (held : List Anchor) :
    (context .none budget held).Preserves := by
  induction budget generalizing held with
  | zero =>
    exact ⟨context_restores Host.none_steady 0 held, fun _ _ _ _ m => Preserves.chains.refl m,
      fun _ _ _ _ m => Preserves.chains.refl m⟩
  | succ budget ih =>
    refine ⟨context_restores Host.none_steady (budget + 1) held, ?_,
      fun _ _ _ _ m => Preserves.chains.refl m⟩
    intro base held lines inFunction m
    exact Run.runLines_preserves (ih held) base lines inFunction m

end BuildScript
