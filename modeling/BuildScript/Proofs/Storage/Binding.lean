import BuildScript.Proofs.Storage.Reached

/-!
Binding the parameters of a call. Where their names are new, binding never fails: a shared parameter
stands for the slot it was given, and every other one for storage that nothing else leads to.
-/

namespace BuildScript

open Eval (Bound)

namespace Memory

variable {a b c : Memory} {slot target : Slot}

/-- Beyond what there was, nothing leads back to it. -/
theorem Sprouts.inside (h : a.Sprouts b) (hslot : a.cells.size ≤ slot.index)
    (hinside : b.Inside slot target) : a.cells.size ≤ target.index := by
  induction hinside with
  | refl => exact hslot
  | tail _ hpart ih => exact h.apart _ ih _ hpart

theorem alloc_sprouts (memory : Memory) (value : Value) :
    memory.Sprouts (memory.alloc value).2 := (place_planted memory value).push

theorem alloc_slot (memory : Memory) (value : Value) :
    memory.cells.size ≤ (memory.alloc value).1.index ∧
      (memory.alloc value).1.index < (memory.alloc value).2.cells.size :=
  ⟨(place_planted memory value).cells, push_bound _ _⟩

/-- A value is read back from its slot, whatever else is stored since. -/
theorem load_alloc (h : (a.alloc value).2.Grows c) : c.load (a.alloc value).1 = value := by
  have hcovers : Covers a ((a.place value).2.push (a.place value).1).2 c :=
    ⟨fun slot _ hslot => h.content slot hslot, fun id _ hid => h.instanceOf id hid⟩
  apply hcovers.loadWithin_push (place_planted a value).toGrows
  · intro depth hdepth
    exact valueWithin_place a value (hcovers.earlier (grows_push _ _)) hdepth
  · have hcells := h.cells
    unfold alloc at hcells
    dsimp only at hcells
    omega

end Memory

namespace Environment

variable {env env' : Environment} {name : String}

/-- What binding parameters makes of an environment. -/
structure Binds (env : Environment) (bound : List (String × Bound)) (env' : Environment) :
    Prop where
  memory : env.memory.Sprouts env'.memory
  scopes : env.scopes.Within env'.scopes
  others : ∀ name, name ∉ bound.map (·.1) →
    env'.scopes.lookupCurrent name = env.scopes.lookupCurrent name
  shared : ∀ name slot, (name, Bound.shared slot) ∈ bound →
    env'.scopes.lookupCurrent name = some slot
  fresh : ∀ name value, (name, Bound.fresh value) ∈ bound → ∃ slot,
    env'.scopes.lookupCurrent name = some slot ∧ env.memory.cells.size ≤ slot.index ∧
      env'.memory.load slot = value
  apart : ∀ name value name' value' slot, (name, Bound.fresh value) ∈ bound →
    (name', Bound.fresh value') ∈ bound → env'.scopes.lookupCurrent name = some slot →
      env'.scopes.lookupCurrent name' = some slot → name = name'

namespace Binds

theorem refl (env : Environment) : env.Binds [] env where
  memory := .refl _
  scopes := .refl _
  others _ _ := rfl
  shared _ _ hmem := absurd hmem List.not_mem_nil
  fresh _ _ hmem := absurd hmem List.not_mem_nil
  apart _ _ _ _ _ hmem := absurd hmem List.not_mem_nil

variable {rest : List (String × Bound)}

/-- The slot of the argument is bound, and then the rest. -/
theorem shared_cons {slot : Slot}
    (h : Binds { env with scopes := env.scopes.addBinding name slot } rest env')
    (hnew : name ∉ rest.map (·.1)) : env.Binds ((name, .shared slot) :: rest) env' := by
  have hname : env'.scopes.lookupCurrent name = some slot := by
    rw [h.others name hnew, ScopeStack.lookupCurrent_addBinding, if_pos rfl]
  refine ⟨h.memory, (ScopeStack.Within.addBinding env.scopes name slot).trans h.scopes, ?_, ?_,
    ?_, ?_⟩
  · intro other hother
    obtain ⟨hne, hrest⟩ := List.ne_and_not_mem_of_not_mem_cons hother
    rw [h.others other hrest, ScopeStack.lookupCurrent_addBinding, if_neg hne]
  · intro other found hmem
    rcases List.mem_cons.mp hmem with heq | hmem
    · cases heq
      exact hname
    · exact h.shared other found hmem
  · intro other value hmem
    rcases List.mem_cons.mp hmem with heq | hmem
    · cases heq
    · exact h.fresh other value hmem
  · intro first value second value' found hfirst hsecond
    rcases List.mem_cons.mp hfirst with heq | hfirst
    · cases heq
    · rcases List.mem_cons.mp hsecond with heq | hsecond
      · cases heq
      · exact h.apart first value second value' found hfirst hsecond

/-- The value gets storage of its own, and then the rest is bound. -/
theorem fresh_cons {value : Value}
    (h : Binds ⟨env.scopes.addBinding name (env.memory.alloc value).1,
      (env.memory.alloc value).2⟩ rest env')
    (hnew : name ∉ rest.map (·.1)) : env.Binds ((name, .fresh value) :: rest) env' := by
  have hname : env'.scopes.lookupCurrent name = some (env.memory.alloc value).1 := by
    rw [h.others name hnew, ScopeStack.lookupCurrent_addBinding, if_pos rfl]
  have hsprouts := Memory.alloc_sprouts env.memory value
  obtain ⟨hbeyond, hbound⟩ := Memory.alloc_slot env.memory value
  -- what the rest gets lies beyond the slot of the first
  have hlater (other : String) (value' : Value) (hmem : (other, Bound.fresh value') ∈ rest)
      (hother : env'.scopes.lookupCurrent other = some (env.memory.alloc value).1) : False := by
    obtain ⟨slot, hslot, hbeyond', -⟩ := h.fresh other value' hmem
    rw [hother] at hslot
    cases hslot
    exact absurd hbeyond' (Nat.not_le.mpr hbound)
  refine ⟨hsprouts.trans h.memory, (ScopeStack.Within.addBinding env.scopes name _).trans h.scopes,
    ?_, ?_, ?_, ?_⟩
  · intro other hother
    obtain ⟨hne, hrest⟩ := List.ne_and_not_mem_of_not_mem_cons hother
    rw [h.others other hrest, ScopeStack.lookupCurrent_addBinding, if_neg hne]
  · intro other found hmem
    rcases List.mem_cons.mp hmem with heq | hmem
    · cases heq
    · exact h.shared other found hmem
  · intro other value' hmem
    rcases List.mem_cons.mp hmem with heq | hmem
    · cases heq
      exact ⟨_, hname, hbeyond, Memory.load_alloc h.memory.toGrows⟩
    · obtain ⟨slot, hslot, hbeyond', hload⟩ := h.fresh other value' hmem
      exact ⟨slot, hslot, Nat.le_trans hsprouts.cells hbeyond', hload⟩
  · intro first value₁ second value₂ found hfirst hsecond hfound hfound'
    rcases List.mem_cons.mp hfirst with heq | hfirst
    · cases heq
      rcases List.mem_cons.mp hsecond with heq | hsecond
      · cases heq
        rfl
      · rw [hname] at hfound
        cases hfound
        exact (hlater second value₂ hsecond hfound').elim
    · rcases List.mem_cons.mp hsecond with heq | hsecond
      · cases heq
        rw [hname] at hfound'
        cases hfound'
        exact (hlater first value₁ hfirst hfound).elim
      · exact h.apart first value₁ second value₂ found hfirst hsecond hfound hfound'

end Binds

end Environment

namespace Eval

/-- Parameters of different names that are new in the innermost scope are all bound. -/
theorem bindParameters_binds {bound : List (String × Bound)}
    (hnames : (bound.map (·.1)).Nodup) {m : Machine}
    (hfree : ∀ name ∈ bound.map (·.1), m.env.scopes.lookupCurrent name = none) :
    ∃ env, m.env.Binds bound env ∧
      ∀ ctx, bindParameters bound ctx m = (.ok (), { m with env }) := by
  induction bound generalizing m with
  | nil => exact ⟨m.env, .refl m.env, fun _ => rfl⟩
  | cons first rest ih =>
    obtain ⟨name, argument⟩ := first
    obtain ⟨hnew, hrest⟩ := List.nodup_cons.mp hnames
    obtain ⟨hname, hothers⟩ := List.forall_mem_cons.mp hfree
    have hadded (slot : Slot) (other : String) (hmem : other ∈ rest.map (·.1)) :
        (m.env.scopes.addBinding name slot).lookupCurrent other = none := by
      have hne : other ≠ name := by
        rintro rfl
        exact hnew hmem
      rw [ScopeStack.lookupCurrent_addBinding, if_neg hne]
      exact hothers other hmem
    cases argument with
    | shared slot =>
      obtain ⟨env, hbinds, hrun⟩ := @ih hrest
        { m with env := { m.env with scopes := m.env.scopes.addBinding name slot } } (hadded slot)
      refine ⟨env, hbinds.shared_cons hnew, fun ctx => ?_⟩
      have hbind : Eval.bind name slot ctx m = (.ok (), { m with
          env := { m.env with scopes := m.env.scopes.addBinding name slot } }) := by
        rw [bind_apply, Environment.bind_eq hname]
      exact (andThen_apply_ok hbind).trans (hrun ctx)
    | fresh value =>
      obtain ⟨env, hbinds, hrun⟩ := @ih hrest
        { m with env := ⟨m.env.scopes.addBinding name (m.env.memory.alloc value).1,
          (m.env.memory.alloc value).2⟩ } (hadded _)
      refine ⟨env, hbinds.fresh_cons hnew, fun ctx => ?_⟩
      have hdefine : define name value ctx m = (.ok (m.env.memory.alloc value).1, { m with
          env := ⟨m.env.scopes.addBinding name (m.env.memory.alloc value).1,
            (m.env.memory.alloc value).2⟩ }) := by
        rw [define_apply, Environment.define_eq hname]
      exact (andThen_apply_ok hdefine).trans (hrun ctx)

end Eval

end BuildScript
