import BuildScript.Proofs.Storage.Binding

/-!
A stored value is a tree in storage: of the slots that storing it adds, none is a part of two others
or comes twice in one, so that no two ways down from the value meet.
-/

namespace BuildScript.Memory

variable {a b c memory : Memory} {slot whole part : Slot} {content : Content} {roots roots' : List Slot}

/-- What the second memory has beyond the first are trees, and the roots of some of them are
given. -/
structure Branches (a b : Memory) (roots : List Slot) : Prop extends Sprouts a b where
  root : ∀ root ∈ roots, a.cells.size ≤ root.index ∧ root.index < b.cells.size
  distinct : roots.Nodup
  free : ∀ root ∈ roots, ∀ whole : Slot, a.cells.size ≤ whole.index → ¬b.Part whole root
  once : ∀ slot : Slot, a.cells.size ≤ slot.index → (b.parts (b.content slot)).Nodup
  single : ∀ whole whole' part : Slot, a.cells.size ≤ whole.index → a.cells.size ≤ whole'.index →
    b.Part whole part → b.Part whole' part → whole = whole'

theorem parts_outside (h : memory.cells.size ≤ slot.index) :
    memory.parts (memory.content slot) = [] := by
  rw [content_outside h]
  rfl

/-- What was added first has the same parts when more is added. -/
theorem Sprouts.parts_eq (h : a.Sprouts b) (hgrows : b.Grows c) (hslot : a.cells.size ≤ slot.index)
    (hbound : slot.index < b.cells.size) : c.parts (c.content slot) = b.parts (b.content slot) := by
  rw [hgrows.content slot hbound]
  exact hgrows.parts fun id hid => (h.solid slot hslot hbound).object hid

theorem Sprouts.part_bound (h : a.Sprouts b) (hslot : a.cells.size ≤ slot.index)
    (hpart : b.Part slot part) : part.index < b.cells.size := by
  by_cases hbound : slot.index < b.cells.size
  · exact ((h.solid slot hslot hbound).part hpart).bound
  · unfold Part at hpart
    rw [parts_outside (Nat.le_of_not_lt hbound)] at hpart
    cases hpart

namespace Branches

theorem refl (memory : Memory) : memory.Branches memory [] where
  toSprouts := .refl memory
  root := List.forall_mem_nil _
  distinct := .nil
  free := List.forall_mem_nil _
  once slot hslot := by
    rw [parts_outside hslot]
    exact .nil
  single whole _ part hwhole _ hpart _ := by
    unfold Part at hpart
    rw [parts_outside hwhole] at hpart
    cases hpart

/-- A part in the end lies on the same side of the middle as what it is a part of. -/
theorem part_sides (h : a.Branches b roots) (h' : b.Branches c roots')
    (hwhole : a.cells.size ≤ whole.index) (hpart : c.Part whole part) :
    (whole.index < b.cells.size ∧ part.index < b.cells.size ∧ b.Part whole part) ∨
      (b.cells.size ≤ whole.index ∧ b.cells.size ≤ part.index) := by
  by_cases hbound : whole.index < b.cells.size
  · have hbefore : b.Part whole part := by
      unfold Part at hpart ⊢
      rwa [h.toSprouts.parts_eq h'.toGrows hwhole hbound] at hpart
    exact .inl ⟨hbound, h.toSprouts.part_bound hwhole hbefore, hbefore⟩
  · have hafter := Nat.le_of_not_lt hbound
    exact .inr ⟨hafter, h'.apart whole hafter part hpart⟩

theorem trans (h : a.Branches b roots) (h' : b.Branches c roots') :
    a.Branches c (roots ++ roots') where
  toSprouts := h.toSprouts.trans h'.toSprouts
  root root hroot := by
    have hcells := h.cells
    have hcells' := h'.cells
    rcases List.mem_append.mp hroot with hroot | hroot
    · have hbounds := h.root root hroot
      omega
    · have hbounds := h'.root root hroot
      omega
  distinct := by
    apply h.distinct.append h'.distinct
    intro root hroot hroot'
    have hbefore := (h.root root hroot).2
    have hafter := (h'.root root hroot').1
    omega
  free root hroot whole hwhole hpart := by
    rcases List.mem_append.mp hroot with hroot | hroot
    · have hbounds := h.root root hroot
      rcases h.part_sides h' hwhole hpart with ⟨_, _, hbefore⟩ | ⟨_, hafter⟩
      · exact h.free root hroot whole hwhole hbefore
      · omega
    · have hbounds := h'.root root hroot
      rcases h.part_sides h' hwhole hpart with ⟨_, hbefore, _⟩ | ⟨hafter, _⟩
      · omega
      · exact h'.free root hroot whole hafter hpart
  once slot hslot := by
    by_cases hbound : slot.index < b.cells.size
    · rw [h.toSprouts.parts_eq h'.toGrows hslot hbound]
      exact h.once slot hslot
    · exact h'.once slot (Nat.le_of_not_lt hbound)
  single whole whole' part hwhole hwhole' hpart hpart' := by
    rcases h.part_sides h' hwhole hpart with ⟨_, hside, hbefore⟩ | ⟨hafter, hside⟩ <;>
      rcases h.part_sides h' hwhole' hpart' with ⟨_, hside', hbefore'⟩ | ⟨hafter', hside'⟩
    · exact h.single whole whole' part hwhole hwhole' hbefore hbefore'
    · omega
    · omega
    · exact h'.single whole whole' part hafter hafter' hpart hpart'

/-- A slot for a content whose parts are the roots is the one root. -/
theorem push (h : a.Branches b (b.parts content)) (hplanted : a.Planted b content) :
    a.Branches (b.push content).2 [(b.push content).1] := by
  have hcells := h.cells
  -- A slot has the roots as parts if it is the new one, and what it had before otherwise.
  have hparts (slot : Slot) : (b.push content).2.parts ((b.push content).2.content slot) =
      if slot.index = b.cells.size then b.parts content else b.parts (b.content slot) := by
    rw [parts_push, content_push]
    split <;> rfl
  have hpart {whole part : Slot} (hpart : (b.push content).2.Part whole part) :
      (whole.index = b.cells.size ∧ part ∈ b.parts content) ∨
        (whole.index ≠ b.cells.size ∧ b.Part whole part) := by
    unfold Part at hpart ⊢
    rw [hparts] at hpart
    split at hpart
    · rename_i hnew
      exact .inl ⟨hnew, hpart⟩
    · rename_i hold
      exact .inr ⟨hold, hpart⟩
  constructor
  · exact hplanted.push
  · intro root hroot
    obtain rfl := List.mem_singleton.mp hroot
    exact ⟨hcells, push_bound b content⟩
  · exact List.nodup_singleton _
  · intro root hroot whole hwhole hheld
    obtain rfl := List.mem_singleton.mp hroot
    have hbound : (b.push content).1.index < b.cells.size := by
      rcases hpart hheld with ⟨_, hroot⟩ | ⟨_, hbefore⟩
      · exact (h.root _ hroot).2
      · exact h.toSprouts.part_bound hwhole hbefore
    rw [push_slot] at hbound
    omega
  · intro slot hslot
    rw [hparts]
    split
    · exact h.distinct
    · exact h.once slot hslot
  · intro whole whole' part hwhole hwhole' hheld hheld'
    rcases hpart hheld with ⟨hnew, hroot⟩ | ⟨_, hbefore⟩ <;>
      rcases hpart hheld' with ⟨hnew', hroot'⟩ | ⟨_, hbefore'⟩
    · exact congrArg Slot.mk (hnew.trans hnew'.symm)
    · exact absurd hbefore' (h.free part hroot whole' hwhole')
    · exact absurd hbefore (h.free part hroot' whole hwhole)
    · exact h.single whole whole' part hwhole hwhole' hbefore hbefore'

/-- An object whose fields are the roots adds no slot. -/
theorem made (h : a.Branches b roots) (object : Instance) (hroots : object.fields.map (·.2) = roots) :
    a.Branches (b.made object) ((b.made object).parts (.object b.objects.size)) := by
  have hfields : (b.made object).parts (.object b.objects.size) = roots := by
    simp only [parts, instanceOf_made]
    exact hroots
  have hparts {slot : Slot} (hslot : a.cells.size ≤ slot.index) :
      (b.made object).parts ((b.made object).content slot) = b.parts (b.content slot) := by
    by_cases hbound : slot.index < b.cells.size
    · exact h.toSprouts.parts_eq (grows_made b object) hslot hbound
    · rw [parts_outside (Nat.le_of_not_lt hbound)]
      exact @parts_outside (b.made object) slot (Nat.le_of_not_lt hbound)
  have hpart {whole part : Slot} (hwhole : a.cells.size ≤ whole.index)
      (hpart : (b.made object).Part whole part) : b.Part whole part := by
    unfold Part at hpart ⊢
    rwa [hparts hwhole] at hpart
  rw [hfields]
  constructor
  · have hplanted : a.Planted (b.made object) (.object b.objects.size) := by
      apply h.toSprouts.made
      rw [hroots]
      exact h.root
    exact hplanted.toSprouts
  · exact h.root
  · exact h.distinct
  · intro root hroot whole hwhole hheld
    exact h.free root hroot whole hwhole (hpart hwhole hheld)
  · intro slot hslot
    rw [hparts hslot]
    exact h.once slot hslot
  · intro whole whole' part hwhole hwhole' hheld hheld'
    exact h.single whole whole' part hwhole hwhole' (hpart hwhole hheld) (hpart hwhole' hheld')

end Branches

mutual

/-- The parts of a stored value are the roots of what was added. -/
theorem place_branches : (memory : Memory) → (value : Value) →
    memory.Branches (memory.place value).2 ((memory.place value).2.parts (memory.place value).1)
  | memory, .atom atom => by
    simp only [place]
    exact .refl memory
  | memory, .array element items => by
    simp only [place]
    exact placeItems_branches memory items
  | memory, .list items => by
    simp only [place]
    exact placeItems_branches memory items
  | memory, .object className fields methods => by
    have hfields := placeFields_branches memory fields
    simp only [place]
    generalize memory.placeFields fields = placed at hfields
    obtain ⟨slots, after⟩ := placed
    exact hfields.made ⟨className, slots, methods⟩ rfl

theorem placeItems_branches : (memory : Memory) → (values : List Value) →
    memory.Branches (memory.placeItems values).2 (memory.placeItems values).1
  | memory, [] => by
    simp only [placeItems]
    exact .refl memory
  | memory, value :: rest => by
    have hvalue := (place_branches memory value).push (place_planted memory value)
    have hrest := placeItems_branches ((memory.place value).2.push (memory.place value).1).2 rest
    simp only [placeItems]
    exact hvalue.trans hrest

theorem placeFields_branches : (memory : Memory) → (fields : List (String × Value)) →
    memory.Branches (memory.placeFields fields).2 ((memory.placeFields fields).1.map (·.2))
  | memory, [] => by
    simp only [placeFields]
    exact .refl memory
  | memory, (name, value) :: rest => by
    have hvalue := (place_branches memory value).push (place_planted memory value)
    have hrest := placeFields_branches ((memory.place value).2.push (memory.place value).1).2 rest
    simp only [placeFields, List.map_cons]
    exact hvalue.trans hrest

end

theorem alloc_branches (memory : Memory) (value : Value) :
    memory.Branches (memory.alloc value).2 [(memory.alloc value).1] :=
  (place_branches memory value).push (place_planted memory value)

/-- A value that is given a slot of its own is a tree of slots that did not exist before. -/
structure HoldsFresh (memory : Memory) (slot : Slot) (value : Value) (after : Memory) : Prop where
  grows : memory.Grows after
  reads : after.load slot = value
  fresh : ∀ target, after.Inside slot target → memory.cells.size ≤ target.index
  once : ∀ whole, after.Inside slot whole → (after.parts (after.content whole)).Nodup
  single : ∀ whole whole' part, after.Inside slot whole → after.Inside slot whole' →
    after.Part whole part → after.Part whole' part → whole = whole'

theorem alloc_holdsFresh (memory : Memory) (value : Value) :
    memory.HoldsFresh (memory.alloc value).1 value (memory.alloc value).2 := by
  have hbranches := memory.alloc_branches value
  have hfresh {target : Slot} (hinside : (memory.alloc value).2.Inside (memory.alloc value).1 target) :
      memory.cells.size ≤ target.index :=
    hbranches.toSprouts.inside (memory.alloc_slot value).1 hinside
  exact {
    grows := hbranches.toGrows
    reads := load_alloc (.refl _)
    fresh := fun target hinside => hfresh hinside
    once := fun whole hinside => hbranches.once whole (hfresh hinside)
    single := fun whole whole' part hinside hinside' =>
      hbranches.single whole whole' part (hfresh hinside) (hfresh hinside') }

end BuildScript.Memory
