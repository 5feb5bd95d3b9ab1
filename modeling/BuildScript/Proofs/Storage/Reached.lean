import BuildScript.Proofs.Storage.References

/-!
The states of running scripts, also those inside of calls. A state comes with the number of scopes
that belong to running calls and their callers, the roles that variables play in these calls, and
what the evaluations so far have handed out. In all of them storage is in order.
-/

namespace BuildScript

open Eval (Bound Keeps entered isAlive)
open Environment (Tidy)
open Machine (Upholds Preserves)

namespace Roles

/-- The roles once a call has bound its receiver in the scope with so many scopes below it. -/
def withReceiver (level : Nat) (receiver : Option ObjectId) (roles : Roles) : Roles :=
  match receiver with
  | some _ => roles.set ⟨level, "this"⟩ .receiver
  | Option.none => roles

/-- The roles once a call has bound its parameters. -/
def withParameters (level : Nat) : List (String × Bound) → Roles → Roles
  | [], roles => roles
  | (name, .shared _) :: rest, roles =>
    withParameters level rest (roles.set ⟨level, name⟩ .parameter)
  | (_, .fresh _) :: rest, roles => withParameters level rest roles

end Roles

/-- A machine that running scripts leads to, with the number of scopes that running calls and their
callers have, the roles of variables in these calls, and what was handed out. -/
inductive Machine.Reached : Nat → Roles → List Anchor → Machine → Prop
  | start (options : Options) (files : FileSystem) :
    Reached 1 .empty [] (.initial options files)
  /-- Names and storage are as before. -/
  | aside {base roles held} {m m' : Machine} (h : Reached base roles held m)
    (henv : m'.env = m.env) : Reached base roles held m'
  /-- An expression was evaluated, whether it succeeded or not. -/
  | evaluated {base roles held m} (h : Reached base roles held m) (expr : Expr) (budget : Nat)
    (kept : List Anchor) :
    Reached base roles held (Eval.evalExpr expr (Session.context .none budget kept) m).2
  /-- What an expression refers to was handed out. -/
  | referred {base roles held m} (h : Reached base roles held m) {expr : Expr} {budget : Nat}
    {kept : List Anchor} {operand : Operand} {m' : Machine}
    (hrun : Eval.evalExpr expr (Session.context .none budget kept) m = (.ok operand, m')) :
    Reached base roles (operand.anchors ++ held) m'
  /-- The object of something handed out was found. -/
  | found {base roles held m} (h : Reached base roles held m) {operand : Operand} {budget : Nat}
    {kept : List Anchor} {id : ObjectId} {m' : Machine} (hoperand : operand.anchors ⊆ held)
    (hrun : Eval.objectOf operand (Session.context .none budget kept) m = (.ok (some id), m')) :
    Reached base roles (.object id :: held) m'
  /-- An item was run above the scopes of callers. -/
  | item {base roles held m} (h : Reached base roles held m) (inFunction : Bool) (item : Item)
    (budget : Nat) (kept : List Anchor) :
    Reached base roles held
      (Run.runItem base inFunction item (Session.context .none budget kept) m).2
  /-- Lines begin, above all scopes there are. -/
  | nested {base roles held m} (h : Reached base roles held m) :
    Reached m.env.scopes.depth roles held m
  /-- Lines were run to their end. -/
  | lines {base roles held m} (h : Reached base roles held m) (lines : List Text.SourceLine)
    (inFunction : Bool) (budget : Nat) (kept : List Anchor) :
    Reached base roles held
      (Run.runLines lines inFunction (Session.context .none budget kept) m).2
  /-- A call has bound its receiver, which is alive, and its parameters, those by reference to what
  was handed out; the lines of its body come next. -/
  | called {base roles held m} (h : Reached base roles held m) (file : String)
    {receiver : Option ObjectId} {bound : List (String × Bound)} {ctx : Context} {m' : Machine}
    (hreceiver : ∀ id, receiver = some id → isAlive m held id = true)
    (hshared : ∀ name slot, (name, .shared slot) ∈ bound → .slot slot ∈ held)
    (hbind : Eval.bindCall receiver bound ctx (entered file m) = (.ok (), m')) :
    Reached (m.env.scopes.depth + 1)
      ((roles.withReceiver m.env.scopes.depth receiver).withParameters m.env.scopes.depth bound)
      held m'

namespace Memory

variable {memory : Memory} {id : ObjectId} {slot holder : Slot} {above : List Slot} {depth : Nat}

/-- An object that a slot reaches lies inside it. -/
theorem reachesWithin_inside (depth : Nat) (h : reachesWithin depth memory id slot = true) :
    ∃ holder, memory.Inside slot holder ∧ memory.content holder = .object id := by
  induction depth generalizing slot with
  | zero => cases h
  | succ depth ih =>
    have hpart {part : Slot} (hmem : memory.Part slot part)
        (hreaches : reachesWithin depth memory id part = true) :
        ∃ holder, memory.Inside slot holder ∧ memory.content holder = .object id := by
      obtain ⟨holder, hinside, hholder⟩ := ih hreaches
      exact ⟨holder, .head hmem hinside, hholder⟩
    unfold Part at hpart
    unfold reachesWithin at h
    cases hcontent : memory.content slot with
    | atom atom =>
      rw [hcontent] at h
      cases h
    | array element items | list items =>
      rw [hcontent] at h hpart
      obtain ⟨part, hmem, hreaches⟩ := List.any_eq_true.mp h
      exact hpart hmem hreaches
    | object other =>
      rw [hcontent] at h hpart
      rcases (Bool.or_eq_true _ _).mp h with hsame | hfield
      · obtain rfl : other = id := by simpa using hsame
        exact ⟨slot, .refl, hcontent⟩
      · obtain ⟨field, hmem, hreaches⟩ := List.any_eq_true.mp hfield
        exact hpart (List.mem_map_of_mem hmem) hreaches

theorem reachesWithin_here (h : memory.content slot = .object id) :
    reachesWithin (depth + 1) memory id slot = true := by
  simp only [reachesWithin, h, BEq.rfl, Bool.true_or]

theorem reachesWithin_part {part : Slot} (hpart : memory.Part slot part)
    (h : reachesWithin depth memory id part = true) :
    reachesWithin (depth + 1) memory id slot = true := by
  unfold Part at hpart
  unfold reachesWithin
  cases hcontent : memory.content slot with
  | atom atom =>
    rw [hcontent] at hpart
    cases hpart
  | array element items | list items =>
    rw [hcontent] at hpart
    exact List.any_eq_true.mpr ⟨part, hpart, h⟩
  | object other =>
    rw [hcontent] at hpart
    obtain ⟨field, hmem, rfl⟩ := List.mem_map.mp hpart
    exact (Bool.or_eq_true _ _).mpr (.inr (List.any_eq_true.mpr ⟨field, hmem, h⟩))

/-- However long the chain above it, enough depth is left to find what lies inside a solid slot. -/
theorem Chain.finds (h : memory.Chain above slot) (hsolid : memory.Solid slot)
    (hinside : memory.Inside slot holder) (hholder : memory.content holder = .object id)
    (hdepth : memory.cells.size ≤ depth + above.length) :
    reachesWithin depth memory id slot = true := by
  induction hinside using Relation.ReflTransGen.head_induction_on generalizing above depth with
  | refl =>
    have hroom := h.room hsolid
    cases depth with
    | zero => omega
    | succ depth => exact reachesWithin_here hholder
  | head hpart _ ih =>
    have hroom := h.room hsolid
    cases depth with
    | zero => omega
    | succ depth =>
      refine reachesWithin_part hpart (ih (h.part hsolid hpart) (hsolid.part hpart) ?_)
      rw [List.length_cons]
      omega

/-- What lies inside a solid slot is found there. -/
theorem Solid.reaches_inside (h : memory.Solid slot) (hinside : memory.Inside slot holder)
    (hholder : memory.content holder = .object id) : memory.reaches id slot = true :=
  (Chain.nil memory slot).finds h hinside hholder (Nat.le_succ _)

theorem Solid.reaches (h : memory.Solid slot) (hreaches : memory.reaches id slot = true) :
    memory.Stands (.object id) := by
  obtain ⟨holder, hinside, hholder⟩ := reachesWithin_inside _ hreaches
  exact (h.inside hinside).stands hholder

/-- A new slot that leads to an object that stands is solid. -/
theorem Stands.push (h : memory.Stands (.object id)) :
    (memory.push (.object id)).2.Solid (memory.push (.object id)).1 := by
  obtain ⟨hid, hfields⟩ := h
  have hcontent := content_push_self memory (.object id)
  apply Solid.mk
  · exact push_bound memory (.object id)
  · intro other hother
    rw [hcontent] at hother
    cases hother
    exact hid
  · intro part hpart
    unfold Part at hpart
    rw [hcontent] at hpart
    obtain ⟨field, hmem, rfl⟩ := List.mem_map.mp hpart
    exact (grows_push memory (.object id)).solid (hfields field hmem)

end Memory

/-- An object that is alive stands. -/
theorem Machine.Upholds.alive {m : Machine} {held : List Anchor} (h : m.Upholds held) {id : ObjectId}
    (halive : isAlive m held id = true) : m.env.memory.Stands (.object id) := by
  rcases (Bool.or_eq_true _ _).mp halive with hscope | hheld
  · obtain ⟨slot, hmem, hreaches⟩ := List.any_eq_true.mp hscope
    exact (h.sound slot hmem).reaches hreaches
  · obtain ⟨anchor, hmem, hanchor⟩ := List.any_eq_true.mp hheld
    have hstands := h.stands anchor hmem
    cases anchor with
    | slot slot => exact Memory.Solid.reaches hstands hanchor
    | object other =>
      rcases (Bool.or_eq_true _ _).mp hanchor with hsame | hfield
      · obtain rfl : other = id := by simpa using hsame
        exact hstands
      · obtain ⟨field, hfield, hreaches⟩ := List.any_eq_true.mp hfield
        exact (hstands.2 field hfield).reaches hreaches

namespace Eval

variable {ctx : Context} {m m' : Machine} {roles : Roles} {held : List Anchor} {depth : Nat}

/-- In the innermost scope, which is that of a call, storage is in order. -/
structure Prepared (depth : Nat) (roles : Roles) (held : List Anchor) (m : Machine) : Prop where
  length : m.env.scopes.inner.length = depth
  tidy : Tidy (depth + 1) roles m.env
  upholds : m.Upholds held

theorem defineReceiver_prepared (h : Prepared depth roles held m) {id : ObjectId}
    (hid : m.env.memory.Stands (.object id))
    (hrun : defineReceiver id ctx m = (.ok (), m')) :
    Prepared depth (roles.set ⟨depth, "this"⟩ .receiver) held m' := by
  rw [defineReceiver_apply] at hrun
  dsimp only at hrun
  split at hrun
  · rename_i env hbind
    cases hrun
    have hlevel : m.env.scopes.inner.length < depth + 1 := by
      rw [h.length]
      exact Nat.lt_succ_self _
    have htidy := h.tidy.receive hlevel hbind
    rw [h.length] at htidy
    have hgrows := Memory.grows_push m.env.memory (.object id)
    obtain ⟨-, rfl⟩ := Environment.bind_ok hbind
    refine ⟨?_, htidy, ?_, ?_⟩
    · exact (ScopeStack.Within.addBinding m.env.scopes "this" _).length_inner.trans h.length
    · have hstored := h.upholds.sound.store fun _ hslot => hgrows.solid hslot
      exact hstored.add "this" hid.push
    · intro anchor hanchor
      exact hgrows.persists anchor (h.upholds.stands anchor hanchor)
  · cases hrun

theorem bindParameters_prepared {bound : List (String × Bound)} (h : Prepared depth roles held m)
    (hshared : ∀ name slot, (name, .shared slot) ∈ bound → .slot slot ∈ held)
    (hrun : bindParameters bound ctx m = (.ok (), m')) :
    Prepared depth (roles.withParameters depth bound) held m' := by
  induction bound generalizing roles m with
  | nil =>
    cases hrun
    exact h
  | cons first rest ih =>
    have hrest (name : String) (slot : Slot) (hmem : (name, Bound.shared slot) ∈ rest) :
        .slot slot ∈ held := hshared name slot (List.mem_cons_of_mem _ hmem)
    obtain ⟨name, argument⟩ := first
    cases argument with
    | shared slot =>
      obtain ⟨⟨⟩, between, hfirst, hlast⟩ := andThen_ok hrun
      obtain ⟨env, hbind, rfl⟩ := bind_ok hfirst
      have hlevel : m.env.scopes.inner.length < depth + 1 := by
        rw [h.length]
        exact Nat.lt_succ_self _
      have htidy := h.tidy.share hlevel hbind
      rw [h.length] at htidy
      obtain ⟨-, rfl⟩ := Environment.bind_ok hbind
      apply ih ?_ hrest hlast
      refine ⟨?_, htidy, ?_, h.upholds.stands⟩
      · exact (ScopeStack.Within.addBinding _ name slot).length_inner.trans h.length
      · exact h.upholds.sound.add name (h.upholds.solid (hshared name slot List.mem_cons_self))
    | fresh value =>
      obtain ⟨slot, between, hfirst, hlast⟩ := andThen_ok hrun
      obtain ⟨env, hdefine, rfl⟩ := define_ok hfirst
      have hpreserves : m.Preserves 0 { m with env } := (Preserves.defined hdefine).1
      apply ih ?_ hrest hlast
      refine ⟨?_, h.tidy.define hdefine, h.upholds.preserved hpreserves⟩
      obtain ⟨-, -, rfl⟩ := Environment.define_ok hdefine
      exact (ScopeStack.Within.addBinding _ name _).length_inner.trans h.length

theorem bindCall_prepared {receiver : Option ObjectId} {bound : List (String × Bound)}
    (h : Prepared depth roles held m)
    (hreceiver : ∀ id, receiver = some id → m.env.memory.Stands (.object id))
    (hshared : ∀ name slot, (name, .shared slot) ∈ bound → .slot slot ∈ held)
    (hrun : bindCall receiver bound ctx m = (.ok (), m')) :
    Prepared depth ((roles.withReceiver depth receiver).withParameters depth bound) held m' := by
  cases receiver with
  | none => exact bindParameters_prepared h hshared hrun
  | some id =>
    obtain ⟨⟨⟩, between, hfirst, hrest⟩ := andThen_ok hrun
    have hbetween := defineReceiver_prepared h (hreceiver id rfl) hfirst
    exact bindParameters_prepared hbetween hshared hrest

end Eval

namespace Machine

variable {base : Nat} {roles : Roles} {held : List Anchor} {m : Machine}

theorem initial_tidy (options : Options) (files : FileSystem) :
    Tidy 1 .empty (initial options files).env := by
  have hbindings (level : Nat) : ScopeStack.empty.bindingsAt level = [] := by
    cases level <;> rfl
  have hslot (x : Variable) (slot : Slot) : ScopeStack.empty.slotOf x ≠ some slot := by
    unfold ScopeStack.slotOf
    rw [hbindings]
    exact nofun
  have hcontent (slot : Slot) : (initial options files).env.memory.content slot = .atom (.void "") :=
    Memory.content_outside (Nat.zero_le _)
  refine ⟨⟨fun _ => .item ⟨0⟩ 0, fun _ => ⟨0⟩⟩, ⟨?_, ?_⟩, Nat.le_refl _, ?_, ?_, ?_, ?_⟩
  · intro slot
    constructor
    · intro position part hpart
      rw [hcontent] at hpart
      cases hpart
    · intro id hid
      rw [hcontent] at hid
      cases hid
  · intro id position name part hpart
    cases hpart
  · exact fun x hrole => absurd rfl hrole
  · exact fun x hrole => absurd rfl hrole
  · exact fun x slot hfound => absurd hfound (hslot x slot)
  · exact fun x slot hfound => absurd hfound (hslot x slot)

/-- Every slot has one owner, variables have solid slots, and what was handed out stands. -/
structure InOrder (base : Nat) (roles : Roles) (held : List Anchor) (m : Machine) : Prop where
  tidy : Tidy base roles m.env
  upholds : m.Upholds held

theorem InOrder.preserved (h : m.InOrder base roles held) {m' : Machine}
    (hpreserves : m.Preserves base m') : m'.InOrder base roles held :=
  ⟨hpreserves.tidy roles h.tidy, h.upholds.preserved hpreserves⟩

/-- In every state of running scripts storage is in order. -/
theorem Reached.inOrder (h : Reached base roles held m) : m.InOrder base roles held := by
  have hcontext := Session.context_preserves
  have hsteps (base budget : Nat) (kept : List Anchor) :
      Eval.Steps (Keeps (Preserves base) (Session.context .none budget kept)) :=
    (Eval.preserves_effects (hcontext budget kept)).steps
  have holding_context (budget : Nat) (kept : List Anchor) :
      { Session.context .none budget kept with held := kept } = Session.context .none budget kept := by
    cases budget <;> rfl
  induction h with
  | start options files =>
    refine ⟨initial_tidy options files, ?_, List.forall_mem_nil _⟩
    exact List.forall_mem_nil _
  | aside h henv ih => exact ih.preserved (.of_env henv)
  | evaluated h expr budget kept ih =>
    exact ih.preserved ((hsteps _ budget kept).evalExpr expr |>.apply _)
  | @referred base roles held m h expr budget kept operand m' hrun ih =>
    have hpreserves := hsteps base budget kept |>.evalExpr expr kept m
    have hrefers := Eval.evalExpr_refers (hcontext budget kept) expr held kept m operand m' ih.upholds
    rw [holding_context] at hpreserves hrefers
    rw [hrun] at hpreserves
    exact ⟨hpreserves.tidy roles ih.tidy, hrefers hrun⟩
  | @found base roles held m h operand budget kept id m' hoperand hrun ih =>
    have hpreserves := hsteps base budget kept |>.objectOf operand kept m
    have hupholds : m.Upholds (operand.anchors ++ held) :=
      ih.upholds.subset (List.append_subset.mpr ⟨hoperand, List.Subset.refl held⟩)
    have hleads := @Eval.objectOf_leads (Session.context .none budget kept) operand held kept m
      (some id) m' hupholds
    rw [holding_context] at hpreserves hleads
    rw [hrun] at hpreserves
    obtain ⟨hafter, hobject⟩ := hleads hrun
    exact ⟨hpreserves.tidy roles ih.tidy, hafter.cons (hobject id rfl)⟩
  | @item base roles held m h inFunction item budget kept ih =>
    have hlines := (Run.preserves_effects (hcontext budget kept) base).lines
    exact ih.preserved ((hlines.runItem inFunction item).apply _)
  | nested h ih =>
    obtain ⟨o, hfits⟩ := ih.tidy
    exact ⟨Tidy.raise ⟨o, hfits⟩ hfits.depth (Nat.le_refl _), ih.upholds⟩
  | lines h lines inFunction budget kept ih =>
    exact ih.preserved (Run.runLines_preserves (hcontext budget kept) _ lines inFunction _)
  | @called base roles held m h file receiver bound ctx m' hreceiver hshared hbind ih =>
    have hsound : (entered file m).env.Sound :=
      ih.upholds.sound.trim (Environment.Trims.push m.env.scopes rfl : Environment.Trims base _ _)
    have hprepared : Eval.Prepared m.env.scopes.depth roles held (entered file m) :=
      ⟨rfl, Eval.entered_tidy file ih.tidy, hsound, ih.upholds.stands⟩
    have hcalled := Eval.bindCall_prepared hprepared (fun id hid => ih.upholds.alive (hreceiver id hid))
      hshared hbind
    exact ⟨hcalled.tidy, hcalled.upholds⟩

end Machine

end BuildScript
