import BuildScript.Proofs.Isolation.Parallel
import BuildScript.Proofs.Run.Bindings
import BuildScript.Proofs.Storage.Histories
import BuildScript.Proofs.Storage.Reached

/-!
Holding on to what a variable has anyway. An evaluation can tell what is held by one thing only, which
is whether an object still exists. So it makes no difference that the slot of a variable is held as
well, nor that the object in this slot is, as long as the slot keeps the object; and an object that has
once left a slot does not come back.
-/

namespace BuildScript

open Eval (Keeps Chains Composes Steps Bound entered left leadsTo)
open Machine (KeepsBound Stores)

namespace Memory

variable {memory : Memory} {slot : Slot} {id : ObjectId}

/-- The object in a solid slot leads nowhere that the slot does not lead. -/
theorem Solid.reaches_object (h : memory.Solid slot) (hcontent : memory.content slot = .object id)
    {target : ObjectId} (hleads : leadsTo memory target (.object id) = true) :
    memory.reaches target slot = true := by
  rcases (Bool.or_eq_true _ _).mp hleads with hsame | hfield
  · obtain rfl : id = target := by simpa using hsame
    exact reachesWithin_here hcontent
  · obtain ⟨field, hmem, hreaches⟩ := List.any_eq_true.mp hfield
    obtain ⟨holder, hinside, hholder⟩ := reachesWithin_inside _ hreaches
    have hpart : memory.Part slot field.2 := by
      unfold Part
      rw [hcontent]
      exact List.mem_map_of_mem hmem
    exact h.reaches_inside (.head hpart hinside) hholder

/-- Each of the anchors is the slot or the object in it. -/
def Backs (memory : Memory) (slot : Slot) (anchors : List Anchor) : Prop :=
  ∀ anchor ∈ anchors,
    anchor = .slot slot ∨ ∃ id, anchor = .object id ∧ memory.content slot = .object id

theorem Backs.reaches {anchors : List Anchor} (h : memory.Backs slot anchors)
    (hsolid : memory.Solid slot) {anchor : Anchor} (hanchor : anchor ∈ anchors) {target : ObjectId}
    (hleads : leadsTo memory target anchor = true) : memory.reaches target slot = true := by
  rcases h anchor hanchor with rfl | ⟨id, rfl, hcontent⟩
  · exact hleads
  · exact hsolid.reaches_object hcontent hleads

end Memory

/-- A variable has the slot, and the slot and the objects among the anchors exist. -/
structure Machine.Sustains (x : Variable) (slot : Slot) (anchors : List Anchor) (m : Machine) :
    Prop where
  slotOf : m.env.scopes.slotOf x = some slot
  solid : m.env.memory.Solid slot
  made : ∀ id, .object id ∈ anchors → id < m.env.memory.objects.size

/-- The second list has everything of the first, and in addition nothing but some of the anchors. -/
structure Augments (anchors held held' : List Anchor) : Prop where
  kept : ∀ anchor ∈ held, anchor ∈ held'
  only : ∀ anchor ∈ held', anchor ∈ anchors ∨ anchor ∈ held

theorem Augments.append {anchors held held' : List Anchor} (h : Augments anchors held held')
    (more : List Anchor) : Augments anchors (more ++ held) (more ++ held') where
  kept anchor hmem := by
    rcases List.mem_append.mp hmem with hmore | hheld
    · exact List.mem_append_left _ hmore
    · exact List.mem_append_right _ (h.kept anchor hheld)
  only anchor hmem := by
    rcases List.mem_append.mp hmem with hmore | hheld
    · exact .inr (List.mem_append_left _ hmore)
    · exact (h.only anchor hheld).imp_right (List.mem_append_right _)

theorem Augments.more (anchors held : List Anchor) : Augments anchors held (anchors ++ held) :=
  ⟨fun _ hmem => List.mem_append_right _ hmem, fun _ hmem => List.mem_append.mp hmem⟩

namespace Machine.Sustains

variable {x : Variable} {slot : Slot} {anchors : List Anchor} {m m' : Machine}

theorem later (h : m.Sustains x slot anchors) (hbound : m.KeepsBound x.level m')
    (hstores : m.Stores m') : m'.Sustains x slot anchors where
  slotOf := hbound x slot (Nat.le_refl _) h.slotOf
  solid := hstores.persists.solid h.solid
  made id hid := Nat.lt_of_lt_of_le (h.made id hid) hstores.sizes.2

/-- What the slot backs in the end it has backed all the time. -/
theorem earlier (h : m.Sustains x slot anchors) (hstores : m.Stores m')
    (hbacks : m'.env.memory.Backs slot anchors) : m.env.memory.Backs slot anchors := by
  intro anchor hanchor
  rcases hbacks anchor hanchor with rfl | ⟨id, rfl, hcontent⟩
  · exact .inl rfl
  · exact .inr ⟨id, rfl, hstores.content_object h.solid.bound (h.made id hanchor) hcontent⟩

/-- What the variable keeps in existence need not be held. -/
theorem isAlive (h : m.Sustains x slot anchors) (hbacks : m.env.memory.Backs slot anchors)
    {held held' : List Anchor} (haugments : Augments anchors held held') (id : ObjectId) :
    Eval.isAlive m held' id = Eval.isAlive m held id := by
  show (m.env.scopes.slots.any (m.env.memory.reaches id) || held'.any (leadsTo m.env.memory id)) =
    (m.env.scopes.slots.any (m.env.memory.reaches id) || held.any (leadsTo m.env.memory id))
  rw [Bool.eq_iff_iff, Bool.or_eq_true, Bool.or_eq_true]
  refine ⟨?_, Or.imp_right fun hheld => ?_⟩
  · rintro (hscope | hheld)
    · exact .inl hscope
    · obtain ⟨anchor, hmem, hleads⟩ := List.any_eq_true.mp hheld
      rcases haugments.only anchor hmem with hanchor | hmem
      · exact .inl (List.any_eq_true.mpr ⟨slot, ScopeStack.slotOf_mem h.slotOf,
          hbacks.reaches h.solid hanchor hleads⟩)
      · exact .inr (List.any_eq_true.mpr ⟨anchor, hmem, hleads⟩)
  · obtain ⟨anchor, hmem, hleads⟩ := List.any_eq_true.mp hheld
    exact List.any_eq_true.mpr ⟨anchor, haugments.kept anchor hmem, hleads⟩

end Machine.Sustains

namespace Eval

variable {α β : Type} {x : Variable} {slot : Slot} {anchors : List Anchor} {ctx : Context}

/-- It makes no difference to the evaluation that some of the anchors are held in addition, if the
slot of the variable backs them to its end. -/
structure Heedless (x : Variable) (slot : Slot) (anchors : List Anchor) (ctx : Context)
    ⦃α : Type⦄ (run : Eval α) : Prop where
  bound : Keeps (KeepsBound x.level) ctx run
  stores : Keeps Stores ctx run
  same : ∀ {held held' : List Anchor} {m : Machine}, Augments anchors held held' →
    m.Sustains x slot anchors →
    (run { ctx with held } m).2.env.memory.Backs slot anchors →
      run { ctx with held := held' } m = run { ctx with held } m

namespace Heedless

/-- What does not look at what is held. -/
theorem of_blind {run : Eval α} (hbound : Keeps (KeepsBound x.level) ctx run)
    (hstores : Keeps Stores ctx run)
    (hblind : ∀ (held held' : List Anchor) (m : Machine),
      run { ctx with held := held' } m = run { ctx with held } m) :
    Heedless x slot anchors ctx run :=
  ⟨hbound, hstores, fun _ _ _ => hblind _ _ _⟩

theorem machine : Heedless x slot anchors ctx machine :=
  of_blind KeepsBound.chains.machine Stores.lasting.machine fun _ _ _ => rfl

theorem bind {run : Eval α} {f : α → Eval β} (hrun : Heedless x slot anchors ctx run)
    (hf : ∀ a, Heedless x slot anchors ctx (f a)) :
    Heedless x slot anchors ctx (run >>= f) where
  bound := KeepsBound.chains.bind hrun.bound fun a => (hf a).bound
  stores := Stores.lasting.bind hrun.stores fun a => (hf a).stores
  same {held held' m} haugments hsustains hbacks := by
    have hbound := hrun.bound held m
    have hstores := hrun.stores held m
    have hsame := hrun.same haugments hsustains
    rw [andThen_apply] at hbacks
    rw [andThen_apply, andThen_apply]
    generalize run { ctx with held } m = first at hbacks hbound hstores hsame
    obtain ⟨result, after⟩ := first
    cases result with
    | error fault => rw [hsame hbacks]
    | ok a =>
      have hafter := hsustains.later hbound hstores
      have hbetween := hafter.earlier ((hf a).stores held after) hbacks
      rw [hsame hbetween]
      exact (hf a).same haugments hafter hbacks

theorem composes : Composes (Heedless x slot anchors ctx) where
  pure a := of_blind (KeepsBound.chains.pure a) (Stores.lasting.pure a) fun _ _ _ => rfl
  fail fault := of_blind (KeepsBound.chains.fail fault) (Stores.lasting.fail fault)
    fun _ _ _ => rfl
  bind := bind
  attempt hrun :=
    { bound := hrun.bound
      stores := hrun.stores
      same := fun haugments hsustains hbacks => by
        rw [attempt_apply, attempt_apply, hrun.same haugments hsustains hbacks] }
  holding more _ hrun :=
    { bound := KeepsBound.chains.holding more hrun.bound
      stores := Stores.lasting.holding more hrun.stores
      same := fun haugments => hrun.same (haugments.append more) }
  read _ hf := bind machine hf

theorem alive (more : List Anchor) (id : ObjectId) : Heedless x slot anchors ctx
    (do return isAlive (← Eval.machine) (more ++ (← held)) id) where
  bound _ m := KeepsBound.chains.refl m
  stores _ m := Stores.lasting.refl m
  same haugments hsustains hbacks := by
    have hsame := hsustains.isAlive hbacks (haugments.append more) id
    exact congrArg (fun known => (Except.ok known, _)) hsame

theorem sees : Sees (Heedless x slot anchors ctx) where
  resolved _ := bind machine fun _ => composes.pure _
  known _ := bind machine fun _ => composes.pure _
  receiver := by
    refine bind machine fun m => ?_
    split
    · exact composes.pure _
    · exact composes.raise _
  alive := alive

end Heedless

end Eval

/-- A context in which bodies and calls of the embedding program keep names bound, change storage as
evaluations do, and do not heed what is held in addition. -/
structure Context.Heedless (x : Variable) (slot : Slot) (anchors : List Anchor) (ctx : Context) :
    Prop where
  bound : ctx.KeepsBound x.level
  stores : ctx.Lasts Stores
  runBody : ∀ {held held' : List Anchor} {m : Machine} lines inFunction,
    Augments anchors held held' → m.Sustains x slot anchors →
    (ctx.runBody held lines inFunction m).2.env.memory.Backs slot anchors →
      ctx.runBody held' lines inFunction m = ctx.runBody held lines inFunction m
  callHost : ∀ {held held' : List Anchor} {m : Machine} entry args,
    Augments anchors held held' → m.Sustains x slot anchors →
    (ctx.callHost held entry args m).2.env.memory.Backs slot anchors →
      ctx.callHost held' entry args m = ctx.callHost held entry args m

namespace Eval

variable {x : Variable} {slot : Slot} {anchors : List Anchor} {ctx : Context}

theorem storing (h : ctx.Heedless x slot anchors) : ctx.Keeps Stores :=
  h.stores.keeps Stores.lasting fun _ _ => .none

theorem callBody_heedless (h : ctx.Heedless x slot anchors) (receiver : Option ObjectId)
    (bound : List (String × Bound)) (lines : List Text.SourceLine) :
    Heedless x slot anchors ctx (callBody receiver bound lines) := by
  have hbody (lines : List Text.SourceLine) :
      Heedless x slot anchors ctx (runBody lines true) :=
    ⟨fun held m => h.bound.runBody held lines true m,
      fun held m => h.stores.runBody held lines true m, h.runBody lines true⟩
  refine Heedless.composes.callBody (fun name slot => ?_) (fun name value => ?_) (fun id => ?_)
    hbody receiver bound lines
  · exact .of_blind (bind_keepsBound name slot) (bind_keeps Stores.lasting name slot)
      fun _ _ _ => rfl
  · exact .of_blind (define_keepsBound name value) (define_keeps Stores.lasting name value)
      fun _ _ _ => rfl
  · exact .of_blind (defineReceiver_keepsBound id) (defineReceiver_keeps Stores.lasting id)
      fun _ _ _ => rfl

/-- A call is left with the storage that its body leaves. -/
theorem frame_heedless (h : ctx.Heedless x slot anchors) (file : String)
    (receiver : Option ObjectId) (bound : List (String × Bound)) (lines : List Text.SourceLine) :
    Heedless x slot anchors ctx (inFrame file (callBody receiver bound lines)) where
  bound := frame_keepsBound h.bound file receiver bound lines
  stores := (keeps_effects Stores.lasting (storing h)).frame file receiver bound lines
  same {held held' m} haugments hsustains hbacks := by
    have hentered : (entered file m).Sustains x slot anchors :=
      hsustains.later (entered_keepsBound file m) .none
    rw [inFrame_apply] at hbacks
    rw [inFrame_apply, inFrame_apply,
      (callBody_heedless h receiver bound lines).same haugments hentered hbacks]

/-- The fault that ends a file is reported and stores nothing. -/
theorem closed_env (result : Except Fault Flow × Machine) : (closed result).env = result.2.env := by
  unfold closed
  split <;> rfl

theorem includeFile_heedless (h : ctx.Heedless x slot anchors) (path : String) :
    Heedless x slot anchors ctx (includeFile path) where
  bound := includeFile_keepsBound h.bound path
  stores := (storing h).includeFile path
  same {held held' m} haugments hsustains hbacks := by
    rw [includeFile_apply] at hbacks
    rw [includeFile_apply, includeFile_apply]
    split
    · rfl
    · rename_i hdepth
      cases hread : m.files.readText (m.scriptPath path) with
      | error e => rfl
      | ok text =>
        rw [if_neg hdepth, hread] at hbacks
        dsimp only at hbacks ⊢
        rw [closed_env] at hbacks
        have hopened : (opened (m.scriptPath path)
            { m with includeDepth := m.includeDepth + 1 }).Sustains x slot anchors :=
          hsustains.later (.of_scopes rfl) .none
        rw [h.runBody _ false haugments hopened hbacks]

/-- No evaluation heeds what is held in addition. -/
theorem heedless_steps (h : ctx.Heedless x slot anchors) : Steps (Heedless x slot anchors ctx) :=
  have hbound := (keepsBound_effects h.bound).steps
  have hstores := (keeps_effects Stores.lasting (storing h)).steps
  { toComposes := Heedless.composes
    toSees := Heedless.sees
    print := fun text => .of_blind (hbound.print text) (hstores.print text) fun _ _ _ => rfl
    warn := fun text => .of_blind (hbound.warn text) (hstores.warn text) fun _ _ _ => rfl
    debug := fun text => .of_blind (hbound.debug text) (hstores.debug text) fun _ _ _ => rfl
    reportMessage := fun text =>
      .of_blind (hbound.reportMessage text) (hstores.reportMessage text) fun _ _ _ => rfl
    reportAll := fun errors =>
      .of_blind (hbound.reportAll errors) (hstores.reportAll errors) fun _ _ _ => rfl
    giveIds := fun count => .of_blind (hbound.giveIds count) (hstores.giveIds count) fun _ _ _ => rfl
    fileOperation := fun operation =>
      .of_blind (hbound.fileOperation operation) (hstores.fileOperation operation) fun _ _ _ => rfl
    define := fun name value =>
      .of_blind (hbound.define name value) (hstores.define name value) fun _ _ _ => rfl
    write := fun slot value =>
      .of_blind (hbound.write slot value) (hstores.write slot value) fun _ _ _ => rfl
    place := fun value => .of_blind (hbound.place value) (hstores.place value) fun _ _ _ => rfl
    callUser := Heedless.composes.callUser (frame_heedless h)
    callProcedure := Heedless.composes.callProcedure (frame_heedless h)
    includeFile := includeFile_heedless h
    callHost := fun entry args =>
      ⟨hbound.callHost entry args, hstores.callHost entry args, h.callHost entry args⟩ }

end Eval

namespace Run

variable {x : Variable} {slot : Slot} {anchors : List Anchor} {ctx : Context} {base : Nat}

open Eval (Heedless)

theorem closeBlock_held (held held' : List Anchor) (m : Machine) :
    closeBlock base { ctx with held := held' } m = closeBlock base { ctx with held } m := by
  unfold closeBlock updateScopes
  simp only [scopes, Eval.andThen_apply, Eval.machine_apply, Eval.pure_apply, Eval.update_apply]
  split
  · rw [Eval.andThen_apply, Eval.andThen_apply, Eval.recover_common rfl, Eval.recover_common rfl]
    rfl
  · rfl

/-- Lines above the scope of the variable do not heed it either. -/
theorem heedless_lines (h : ctx.Heedless x slot anchors) (hbase : x.level < base) :
    Lines (Heedless x slot anchors ctx) base :=
  have hbound := (keepsBound_effects h.bound hbase).lines
  have hstores := (keeps_effects Stores.lasting (Eval.storing h) base).lines
  { toStatements := .of_steps (Eval.heedless_steps h)
    glance := fun _ hf => Heedless.bind Heedless.machine hf
    setLastIf := fun outcome =>
      .of_blind (hbound.setLastIf outcome) (hstores.setLastIf outcome) fun _ _ _ => rfl
    conditional := fun state =>
      .of_blind (hbound.conditional state) (hstores.conditional state) fun _ _ _ => rfl
    beginItem := fun item =>
      .of_blind (hbound.beginItem item) (hstores.beginItem item) fun _ _ _ => by cases item <;> rfl
    openBlock := .of_blind hbound.openBlock hstores.openBlock fun _ _ _ => rfl
    completeStatement := fun outcome =>
      .of_blind (hbound.completeStatement outcome) (hstores.completeStatement outcome)
        fun _ _ _ => rfl
    closeBlock := .of_blind hbound.closeBlock hstores.closeBlock closeBlock_held
    atLine := fun line => .of_blind (hbound.atLine line) (hstores.atLine line) fun _ _ _ => rfl
    giveIds := fun count => .of_blind (hbound.giveIds count) (hstores.giveIds count) fun _ _ _ => rfl
    define := fun name value =>
      .of_blind (hbound.define name value) (hstores.define name value) fun _ _ _ => rfl
    registerTemplate := fun template =>
      .of_blind (hbound.registerTemplate template) (hstores.registerTemplate template)
        fun _ _ _ => rfl
    counted := counted_of_machine Heedless.composes Heedless.machine }

/-- The lines of a body or a file run above the scope of every variable there is. -/
theorem runLines_heedless (h : ctx.Heedless x slot anchors) (lines : List Text.SourceLine)
    (inFunction : Bool) {held held' : List Anchor} {m : Machine}
    (haugments : Augments anchors held held') (hsustains : m.Sustains x slot anchors)
    (hbacks : (runLines lines inFunction { ctx with held } m).2.env.memory.Backs slot anchors) :
    runLines lines inFunction { ctx with held := held' } m =
      runLines lines inFunction { ctx with held } m := by
  have hbase : x.level < m.env.scopes.depth :=
    Nat.lt_succ_of_le (ScopeStack.slotOf_level hsustains.slotOf)
  have hscript := (heedless_lines h hbase).runScript inFunction .nothing (.ofLines lines)
  rw [runLines_apply] at hbacks
  have hended : (runScript m.env.scopes.depth inFunction .nothing (.ofLines lines)
      { ctx with held } m).2.env.memory.Backs slot anchors := by
    rw [← ended_env m.env.scopes.depth]
    exact hbacks
  rw [runLines_apply, runLines_apply]
  dsimp only
  rw [hscript.same haugments hsustains hended]

end Run

/-- An embedding program whose entry points do not heed what is held in addition, provided that the
ways back into the script do not. A fed line may close all scopes but the global one. -/
def Host.Heedless (host : Host) : Prop :=
  ∀ (x : Variable) (slot : Slot) (anchors : List Anchor) entry (reentry reentry' : Reentry) args
    (m : Machine),
    (x.level = 0 → ∀ text (m : Machine), m.Sustains x slot anchors →
      (reentry.evalLine text m).2.env.memory.Backs slot anchors →
        reentry'.evalLine text m = reentry.evalLine text m) →
    (∀ function args (m : Machine), m.Sustains x slot anchors →
      (reentry.callValue function args m).2.env.memory.Backs slot anchors →
        reentry'.callValue function args m = reentry.callValue function args m) →
    m.Sustains x slot anchors → (host entry reentry args m).2.env.memory.Backs slot anchors →
      host entry reentry' args m = host entry reentry args m

theorem Host.none_heedless : Host.none.Heedless := fun _ _ _ _ _ _ _ _ _ _ _ _ => rfl

namespace Session

variable {host : Host} {x : Variable} {slot : Slot} {anchors : List Anchor}

/-- Above the global scope a fed line does not heed what global variables keep in existence. -/
theorem evalLine_heedless {ctx : Context} (h : ctx.Heedless x slot anchors) (hglobal : x.level = 0)
    {held held' : List Anchor} {m : Machine} (haugments : Augments anchors held held')
    (hsustains : m.Sustains x slot anchors) (text : String)
    (hbacks : ((reentry { ctx with held }).evalLine text m).2.env.memory.Backs slot anchors) :
    (reentry { ctx with held := held' }).evalLine text m =
      (reentry { ctx with held }).evalLine text m := by
  have habove : x.level < 1 := Nat.lt_of_le_of_lt (Nat.le_of_eq hglobal) Nat.one_pos
  have hline := (Run.heedless_lines h habove).feedLine text
  have hfed : (feedLine text { ctx with held } m).2.env.memory.Backs slot anchors := by
    unfold reentry at hbacks
    dsimp only at hbacks
    generalize feedLine text { ctx with held } m = fed at hbacks
    obtain ⟨result, after⟩ := fed
    cases result <;> exact hbacks
  unfold reentry
  dsimp only
  rw [hline.same haugments hsustains hfed]

/-- However deep bodies, files and returns of the embedding program nest, nothing heeds what is held in
addition. -/
theorem context_heedless (hbound : ∀ level, host.KeepsBound level) (hstores : host.Keeps Stores)
    (hheedless : host.Heedless) (budget : Nat) (held : List Anchor) :
    (context host budget held).Heedless x slot anchors := by
  induction budget generalizing held with
  | zero =>
    exact ⟨context_keepsBound (hbound _) 0 held, Stores.context hstores 0 held,
      fun _ _ _ _ _ => rfl, fun _ _ _ _ _ => rfl⟩
  | succ budget ih =>
    refine ⟨context_keepsBound (hbound _) _ held, Stores.context hstores _ held, ?_, ?_⟩
    · intro first second m lines inFunction haugments hsustains hbacks
      have hlines := Run.runLines_heedless (ih held) lines inFunction haugments hsustains
      rw [context_held, context_held] at hlines
      exact hlines hbacks
    · intro first second m entry args haugments hsustains hbacks
      refine hheedless x slot anchors entry _ _ args m ?_ ?_ hsustains hbacks
      · intro hglobal text m hsustains hbacks
        have hline := evalLine_heedless (ih held) hglobal haugments hsustains text
        rw [context_held, context_held] at hline
        exact hline hbacks
      · intro function args m hsustains hbacks
        have hcall := ((Eval.heedless_steps (ih held)).callValue function args).same haugments
          hsustains
        rw [context_held, context_held] at hcall
        exact hcall hbacks

end Session

end BuildScript
