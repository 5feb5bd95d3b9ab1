import BuildScript.Proofs.Storage.Ownership

/-!
Variables over storage. A variable owns its slot, unless it plays a role in a running call: a
by-reference parameter is bound to a slot of something else, and a receiver leads to an object that
lies in something else. The scopes of running calls stay open, so only what lies above them is ever
closed.
-/

namespace BuildScript

/-- What a variable is in a running call if it does not own what it stands for. -/
inductive Role where
  /-- A by-reference parameter. -/
  | parameter
  /-- The receiver of a method. -/
  | receiver
  deriving DecidableEq

/-- The roles of variables in the running calls. -/
abbrev Roles := Variable → Option Role

namespace Roles

/-- Outside all calls no variable plays a role. -/
def empty : Roles := fun _ => none

def set (roles : Roles) (x : Variable) (role : Role) : Roles :=
  fun y => if y = x then some role else roles y

theorem set_self (roles : Roles) (x : Variable) (role : Role) : roles.set x role x = some role :=
  if_pos rfl

theorem set_of_ne (roles : Roles) {x y : Variable} (h : y ≠ x) (role : Role) :
    roles.set x role y = roles y := if_neg h

end Roles

namespace Environment

open Memory (Solid)

variable {base : Nat} {roles roles' : Roles} {env env' : Environment}

/-- Every slot that a variable has is solid. -/
def Sound (env : Environment) : Prop := ∀ slot ∈ env.scopes.slots, env.memory.Solid slot

/-- The ownership describes the storage, and the variables that play no role own their slots. The
first `base` scopes are those of running calls and of what called them. -/
structure Fits (base : Nat) (roles : Roles) (o : Ownership) (env : Environment) : Prop where
  describes : o.Describes env.memory
  depth : base ≤ env.scopes.depth
  level : ∀ x, roles x ≠ none → x.level < base
  bound : ∀ x, roles x ≠ none → env.scopes.slotOf x ≠ none
  own : ∀ x slot, env.scopes.slotOf x = some slot → roles x = none →
    o.owner slot = .own x ∧ slot.index < env.memory.cells.size
  receiver : ∀ x slot, env.scopes.slotOf x = some slot → roles x = some .receiver →
    o.owner slot = .receiver x ∧ slot.index < env.memory.cells.size

/-- Every slot has one owner, and the variables that play no role own theirs. -/
def Tidy (base : Nat) (roles : Roles) (env : Environment) : Prop := ∃ o, Fits base roles o env

/-- Scopes in which no variable is new and none of a running call is gone. -/
structure Trims (base : Nat) (a b : ScopeStack) : Prop where
  depth : base ≤ a.depth → base ≤ b.depth
  bindings : ∀ level, b.bindingsAt level = a.bindingsAt level ∨ b.bindingsAt level = []
  kept : ∀ x : Variable, x.level < base → base ≤ a.depth → b.slotOf x = a.slotOf x

namespace Trims

variable {a b : ScopeStack}

theorem slotOf (h : Trims base a b) {x : Variable} {slot : Slot} (hslot : b.slotOf x = some slot) :
    a.slotOf x = some slot := by
  unfold ScopeStack.slotOf at hslot ⊢
  rcases h.bindings x.level with hsame | hempty
  · rwa [← hsame]
  · rw [hempty] at hslot
    cases hslot

theorem slots (h : Trims base a b) {slot : Slot} (hslot : slot ∈ b.slots) : slot ∈ a.slots := by
  obtain ⟨level, name, hbinding⟩ := ScopeStack.mem_slots.mp hslot
  rcases h.bindings level with hsame | hempty
  · rw [hsame] at hbinding
    exact ScopeStack.mem_slots.mpr ⟨level, name, hbinding⟩
  · rw [hempty] at hbinding
    cases hbinding

theorem of_bindings (hdepth : a.depth ≤ b.depth)
    (hsame : ∀ level, b.bindingsAt level = a.bindingsAt level) : Trims base a b := by
  refine ⟨fun h => Nat.le_trans h hdepth, fun level => .inl (hsame level), ?_⟩
  intro x _ _
  unfold ScopeStack.slotOf
  rw [hsame]

theorem mapCurrent (stack : ScopeStack) {f : Scope → Scope}
    (hf : ∀ scope, (f scope).bindings = scope.bindings) :
    Trims base stack (stack.mapCurrent f) := by
  apply of_bindings
  · obtain ⟨inner, global⟩ := stack
    cases inner <;> exact Nat.le_refl _
  · exact ScopeStack.bindingsAt_mapCurrent stack hf

theorem push (stack : ScopeStack) {scope : Scope} (hempty : scope.bindings = []) :
    Trims base stack (stack.push scope) :=
  of_bindings (Nat.le_succ _) (ScopeStack.bindingsAt_push stack hempty)

theorem opened (stack : ScopeStack) : Trims base stack stack.opened := by
  unfold ScopeStack.opened
  split
  · exact mapCurrent stack fun _ => rfl
  · exact push stack rfl

theorem without (stack : ScopeStack) {count : Nat}
    (hcount : base ≤ stack.depth → count + (base - 1) ≤ stack.inner.length) :
    Trims base stack (stack.without count) := by
  refine ⟨?_, ?_, ?_⟩
  · intro hbase
    have hkept := hcount hbase
    simp only [ScopeStack.depth, ScopeStack.without, List.length_drop] at hbase ⊢
    omega
  · intro level
    rw [ScopeStack.bindingsAt_without]
    split
    · exact .inl rfl
    · exact .inr rfl
  · intro x hlevel hbase
    have hkept := hcount hbase
    unfold ScopeStack.slotOf
    rw [ScopeStack.bindingsAt_without, if_pos (by omega)]

theorem singles (stack : ScopeStack) :
    Trims base stack (stack.without (Run.openSingles base stack.inner)) := by
  apply without
  intro hbase
  have hle := ScopeStack.openSingles_le base stack.inner
  unfold ScopeStack.depth at hbase
  omega

theorem pop (stack : ScopeStack) (hdepth : base < stack.depth) : Trims base stack stack.pop.2 := by
  obtain ⟨inner, global⟩ := stack
  cases inner with
  | nil => exact of_bindings (Nat.le_refl _) fun _ => rfl
  | cons scope rest =>
    have hone : base ≤ ScopeStack.depth ⟨scope :: rest, global⟩ →
        1 + (base - 1) ≤ (scope :: rest).length := by
      simp only [ScopeStack.depth, List.length_cons] at hdepth ⊢
      omega
    exact without ⟨scope :: rest, global⟩ hone

theorem truncate (stack : ScopeStack) {depth : Nat} (hdepth : base ≤ depth) :
    Trims base stack (stack.truncate depth) := by
  apply without
  intro hbase
  unfold ScopeStack.depth at hbase ⊢
  omega

end Trims

namespace Fits

variable {o o' : Ownership}

/-- Only which scopes are open changes. -/
theorem trim (h : Fits base roles o env) {scopes : ScopeStack}
    (htrims : Trims base env.scopes scopes) : Fits base roles o { env with scopes } where
  describes := h.describes
  depth := htrims.depth h.depth
  level := h.level
  bound x hrole := by
    rw [htrims.kept x (h.level x hrole) h.depth]
    exact h.bound x hrole
  own x slot hslot := h.own x slot (htrims.slotOf hslot)
  receiver x slot hslot := h.receiver x slot (htrims.slotOf hslot)

/-- Only the storage changes. -/
theorem store (h : Fits base roles o env) {memory : Memory}
    (hcells : env.memory.cells.size ≤ memory.cells.size) (hextends : o.Extends o' env.memory)
    (hdescribes : o'.Describes memory) : Fits base roles o' { env with memory } where
  describes := hdescribes
  depth := h.depth
  level := h.level
  bound := h.bound
  own x slot hslot hrole := by
    obtain ⟨howner, hbound⟩ := h.own x slot hslot hrole
    exact ⟨(hextends.owner slot hbound).trans howner, Nat.lt_of_lt_of_le hbound hcells⟩
  receiver x slot hslot hrole := by
    obtain ⟨howner, hbound⟩ := h.receiver x slot hslot hrole
    exact ⟨(hextends.owner slot hbound).trans howner, Nat.lt_of_lt_of_le hbound hcells⟩

/-- One more variable in the innermost scope, which owns its slot unless it gets a role. -/
theorem add (h : Fits base roles o env) {name : String} {slot : Slot} {x : Variable}
    (hx : x = ⟨env.scopes.inner.length, name⟩) (hroles : ∀ y, y ≠ x → roles' y = roles y)
    (hlevel : roles' x ≠ none → x.level < base)
    (hown : roles' x = none → o.owner slot = .own x ∧ slot.index < env.memory.cells.size)
    (hreceiver : roles' x = some .receiver →
      o.owner slot = .receiver x ∧ slot.index < env.memory.cells.size) :
    Fits base roles' o { env with scopes := env.scopes.addBinding name slot } := by
  have hslot (y : Variable) : (env.scopes.addBinding name slot).slotOf y =
      if y = x then some slot else env.scopes.slotOf y := by
    rw [ScopeStack.slotOf_addBinding, hx]
  constructor
  · exact h.describes
  · have hdepth := (ScopeStack.Within.addBinding env.scopes name slot).depth
    rw [hdepth]
    exact h.depth
  · intro y hrole
    by_cases hy : y = x
    · subst hy
      exact hlevel hrole
    · rw [hroles y hy] at hrole
      exact h.level y hrole
  · intro y hrole
    rw [hslot]
    split
    · exact Option.some_ne_none slot
    · rename_i hy
      rw [hroles y hy] at hrole
      exact h.bound y hrole
  · intro y found hfound hrole
    rw [hslot] at hfound
    split at hfound
    · rename_i hy
      cases hfound
      subst hy
      exact hown hrole
    · rename_i hy
      rw [hroles y hy] at hrole
      exact h.own y found hfound hrole
  · intro y found hfound hrole
    rw [hslot] at hfound
    split at hfound
    · rename_i hy
      cases hfound
      subst hy
      exact hreceiver hrole
    · rename_i hy
      rw [hroles y hy] at hrole
      exact h.receiver y found hfound hrole

/-- A name that is free in the innermost scope plays no role there. -/
theorem free (h : Fits base roles o env) {name : String}
    (hfree : env.scopes.lookupCurrent name = none) :
    roles ⟨env.scopes.inner.length, name⟩ = none := by
  by_contra hrole
  apply h.bound _ hrole
  rw [ScopeStack.slotOf_current]
  exact hfree

/-- A new slot may lead to any object as long as it is that of a receiver. -/
theorem lead (h : Fits base roles o env) (x : Variable) (id : ObjectId) :
    ∃ o', Fits base roles o' { env with memory := (env.memory.push (.object id)).2 } ∧
      o'.owner (env.memory.push (.object id)).1 = .receiver x := by
  have hcontains : o.Contains env.memory ⟨env.memory.cells.size⟩ (.receiver x) (.object id) := by
    constructor
    · intro position part hpart
      cases hpart
    · intro _ _ hnot
      exact absurd rfl (hnot x)
  obtain ⟨o', hextends, hdescribes, howner⟩ :=
    h.describes.pushed (.refl o env.memory) (.refl env.memory) hcontains
  have hcells := (Memory.grows_push env.memory (.object id)).cells
  exact ⟨o', h.store hcells hextends hdescribes, howner⟩

end Fits

namespace Sound

variable {memory : Memory}

/-- No new variable has a slot, and what was solid stays solid. -/
theorem trim (h : Sound env) {scopes : ScopeStack} (htrims : Trims base env.scopes scopes) :
    Sound { env with scopes } := fun slot hslot => h slot (htrims.slots hslot)

theorem store (h : Sound env)
    (hsolid : ∀ slot, env.memory.Solid slot → memory.Solid slot) : Sound { env with memory } :=
  fun slot hslot => hsolid slot (h slot hslot)

theorem add (h : Sound env) (name : String) {slot : Slot} (hslot : env.memory.Solid slot) :
    Sound { env with scopes := env.scopes.addBinding name slot } := by
  intro other hother
  obtain ⟨level, found, hbinding⟩ := ScopeStack.mem_slots.mp hother
  rw [ScopeStack.bindingsAt_addBinding] at hbinding
  split at hbinding
  · rcases List.mem_cons.mp hbinding with heq | hmem
    · cases heq
      exact hslot
    · exact h other (ScopeStack.mem_slots.mpr ⟨level, found, hmem⟩)
  · exact h other (ScopeStack.mem_slots.mpr ⟨level, found, hbinding⟩)

end Sound

namespace Tidy

/-- Only which scopes are open changes. -/
theorem trim (h : Tidy base roles env) {scopes : ScopeStack}
    (htrims : Trims base env.scopes scopes) : Tidy base roles { env with scopes } := by
  obtain ⟨o, hfits⟩ := h
  exact ⟨o, hfits.trim htrims⟩

theorem place (h : Tidy base roles env) (value : Value) :
    Tidy base roles { env with memory := (env.memory.place value).2 } := by
  obtain ⟨o, hfits⟩ := h
  -- The parts belong to the whole, wherever this will be.
  obtain ⟨o', hextends, hdescribes, -⟩ := hfits.describes.place env.memory value ⟨0⟩
  exact ⟨o', hfits.store (Memory.place_planted env.memory value).cells hextends hdescribes⟩

theorem write (h : Tidy base roles env) (target : Slot) (value : Value) :
    Tidy base roles (env.write target value) := by
  obtain ⟨o, hfits⟩ := h
  obtain ⟨o', hextends, hdescribes⟩ := hfits.describes.write target value
  exact ⟨o', hfits.store (Memory.write_cells env.memory target value) hextends hdescribes⟩

/-- A declared variable owns its slot. -/
theorem define (h : Tidy base roles env) {name : String} {value : Value} {slot : Slot}
    (hdefine : env.define name value = .ok (slot, env')) : Tidy base roles env' := by
  obtain ⟨o, hfits⟩ := h
  obtain ⟨hfree, rfl, rfl⟩ := define_ok hdefine
  have hsprouts := (Memory.place_planted env.memory value).push
  obtain ⟨o', hextends, hdescribes, howner⟩ :=
    hfits.describes.alloc value (.own ⟨env.scopes.inner.length, name⟩)
  have hstored := hfits.store hsprouts.cells hextends hdescribes
  refine ⟨o', hstored.add rfl (fun _ _ => rfl) (hfits.level _) ?_ ?_⟩
  · intro _
    exact ⟨howner, Memory.push_bound _ _⟩
  · intro hrole
    rw [hfits.free hfree] at hrole
    cases hrole

/-- A by-reference parameter is bound to any slot. -/
theorem share (h : Tidy base roles env) {name : String} {slot : Slot}
    (hlevel : env.scopes.inner.length < base) (hbind : env.bind name slot = .ok env') :
    Tidy base (roles.set ⟨env.scopes.inner.length, name⟩ .parameter) env' := by
  obtain ⟨o, hfits⟩ := h
  obtain ⟨-, rfl⟩ := bind_ok hbind
  refine ⟨o, hfits.add rfl (fun y hy => roles.set_of_ne hy _) (fun _ => hlevel) ?_ ?_⟩
  · intro hrole
    rw [Roles.set_self] at hrole
    cases hrole
  · intro hrole
    rw [Roles.set_self] at hrole
    cases hrole

/-- A receiver has a slot that leads to any object. -/
theorem receive (h : Tidy base roles env) {name : String} {id : ObjectId}
    (hlevel : env.scopes.inner.length < base)
    (hbind : { env with memory := (env.memory.push (.object id)).2 }.bind name
      (env.memory.push (.object id)).1 = .ok env') :
    Tidy base (roles.set ⟨env.scopes.inner.length, name⟩ .receiver) env' := by
  obtain ⟨o, hfits⟩ := h
  obtain ⟨-, rfl⟩ := bind_ok hbind
  obtain ⟨o', hled, howner⟩ := hfits.lead ⟨env.scopes.inner.length, name⟩ id
  refine ⟨o', hled.add rfl (fun y hy => roles.set_of_ne hy _) (fun _ => hlevel) ?_ ?_⟩
  · intro hrole
    rw [Roles.set_self] at hrole
    cases hrole
  · intro _
    exact ⟨howner, Memory.push_bound _ _⟩

/-- More scopes count as those of callers. -/
theorem raise (h : Tidy base roles env) {base' : Nat} (hbase : base ≤ base')
    (hdepth : base' ≤ env.scopes.depth) : Tidy base' roles env := by
  obtain ⟨o, hfits⟩ := h
  exact ⟨o, hfits.describes, hdepth, fun x hrole => Nat.lt_of_lt_of_le (hfits.level x hrole) hbase,
    hfits.bound, hfits.own, hfits.receiver⟩

/-- Fewer scopes count as those of callers. -/
theorem lower (h : Tidy base roles env) {base' : Nat} (hbase : base' ≤ base)
    (hlevel : ∀ x, roles x ≠ none → x.level < base') : Tidy base' roles env := by
  obtain ⟨o, hfits⟩ := h
  exact ⟨o, hfits.describes, Nat.le_trans hbase hfits.depth, hlevel, hfits.bound, hfits.own,
    hfits.receiver⟩

/-- Leaving a call takes off its scope, with the roles of its variables. -/
theorem leave {depth : Nat} (h : Tidy (depth + 1) roles' env)
    (hroles : ∀ x : Variable, x.level < depth → roles' x = roles x)
    (hlevel : ∀ x, roles x ≠ none → x.level < base) (hbase : base ≤ depth) (hdepth : 0 < depth) :
    Tidy base roles { env with scopes := env.scopes.truncate depth } := by
  obtain ⟨o, hfits⟩ := h
  have htrims : Trims depth env.scopes (env.scopes.truncate depth) :=
    .truncate env.scopes (Nat.le_refl depth)
  have hopen : depth ≤ env.scopes.depth := Nat.le_of_succ_le hfits.depth
  have hbelow {x : Variable} {slot : Slot}
      (hslot : (env.scopes.truncate depth).slotOf x = some slot) : x.level < depth := by
    by_contra habove
    unfold ScopeStack.slotOf at hslot
    rw [ScopeStack.bindingsAt_above] at hslot
    · cases hslot
    · unfold ScopeStack.depth at hopen
      simp only [ScopeStack.truncate, ScopeStack.depth, List.length_drop]
      omega
  refine ⟨o, hfits.describes, Nat.le_trans hbase (htrims.depth hopen), hlevel, ?_, ?_, ?_⟩
  · intro x hrole
    have hx : x.level < depth := Nat.lt_of_lt_of_le (hlevel x hrole) hbase
    rw [htrims.kept x hx hopen]
    apply hfits.bound
    rwa [hroles x hx]
  · intro x slot hslot hrole
    apply hfits.own x slot (htrims.slotOf hslot)
    rwa [hroles x (hbelow hslot)]
  · intro x slot hslot hrole
    apply hfits.receiver x slot (htrims.slotOf hslot)
    rwa [hroles x (hbelow hslot)]

end Tidy

end Environment

end BuildScript
