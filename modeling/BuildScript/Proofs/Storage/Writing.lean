import BuildScript.Proofs.Storage.Placing

/-!
Replacing what a slot holds. The slot then loads the new value, and whatever does not contain the
slot keeps its value. Slots with the slot inside them stay solid.
-/

namespace BuildScript.Memory

variable {a memory : Memory} {slot target : Slot} {content : Content}

/-- The memory with another content in a cell that exists. -/
def put (memory : Memory) (target : Slot) (content : Content) : Memory :=
  { memory with cells := memory.cells.setIfInBounds target.index content }

theorem write_eq (memory : Memory) (target : Slot) (value : Value) :
    memory.write target value =
      (memory.place value).2.put target (memory.place value).1 := rfl

theorem put_cells (memory : Memory) (target : Slot) (content : Content) :
    (memory.put target content).cells.size = memory.cells.size := by
  simp [put]

theorem parts_put (memory : Memory) (target : Slot) (content root : Content) :
    (memory.put target content).parts root = memory.parts root := by
  cases root <;> rfl

theorem content_put_of_ne (h : slot ≠ target) :
    (memory.put target content).content slot = memory.content slot := by
  have hindex : target.index ≠ slot.index := by
    intro heq
    cases slot
    cases target
    exact h (congrArg Slot.mk heq.symm)
  unfold Memory.content put
  simp only [Array.getD_eq_getD_getElem?]
  rw [Array.getElem?_setIfInBounds_ne hindex]

theorem content_put_self (h : target.index < memory.cells.size) :
    (memory.put target content).content target = content := by
  unfold Memory.content put
  simp [Array.getD_eq_getD_getElem?, h]

theorem content_put_outside (h : memory.cells.size ≤ target.index) :
    memory.put target content = memory := by
  unfold put
  rw [Array.setIfInBounds_eq_of_size_le h]

theorem write_cells (memory : Memory) (target : Slot) (value : Value) :
    memory.cells.size ≤ (memory.write target value).cells.size := by
  rw [write_eq, put_cells]
  exact (place_planted memory value).cells

theorem instanceOf_write {id : ObjectId} (hid : id < memory.objects.size) (target : Slot)
    (value : Value) : (memory.write target value).instanceOf id = memory.instanceOf id :=
  (place_planted memory value).instanceOf id hid

theorem content_write_of_ne (hslot : slot.index < memory.cells.size) (hne : slot ≠ target)
    (value : Value) : (memory.write target value).content slot = memory.content slot := by
  rw [write_eq, content_put_of_ne hne]
  exact (place_planted memory value).content slot hslot

/-- What was planted stays solid when a cell that was there before is replaced. -/
theorem Sprouts.solid_put {b : Memory} (h : a.Sprouts b) (htarget : target.index < a.cells.size)
    (content : Content) (hsolid : b.Solid slot) (hslot : a.cells.size ≤ slot.index) :
    (b.put target content).Solid slot := by
  induction hsolid with
  | @mk slot hbound hobject hparts ih =>
    have hne : slot ≠ target := by
      rintro rfl
      omega
    have hcontent : (b.put target content).content slot = b.content slot :=
      content_put_of_ne hne
    apply Solid.mk
    · rw [put_cells]
      exact hbound
    · intro id hid
      rw [hcontent] at hid
      exact hobject id hid
    · intro part hpart
      unfold Part at hpart
      rw [hcontent, parts_put] at hpart
      exact ih part hpart (h.apart slot hslot part hpart)

/-- Writing keeps every solid slot solid. -/
theorem Solid.write (h : a.Solid slot) (target : Slot) (value : Value) :
    (a.write target value).Solid slot := by
  have hplanted := place_planted a value
  apply h.transfer
  intro slot hslot
  have hgrown := hplanted.toGrows.solid hslot
  rw [write_eq, put_cells]
  refine ⟨hgrown.bound, ?_⟩
  by_cases hsame : slot = target
  · subst hsame
    have hcontent : ((a.place value).2.put slot (a.place value).1).content slot =
        (a.place value).1 := content_put_self hgrown.bound
    constructor
    · intro id hid
      rw [hcontent] at hid
      exact (hplanted.object id hid).2
    · intro part hpart
      unfold Part at hpart
      rw [hcontent, parts_put] at hpart
      exact .inr (hplanted.toSprouts.solid_put hslot.bound _ (hplanted.solidPart hpart)
        (hplanted.parts part hpart).1)
  · have hcontent : ((a.place value).2.put target (a.place value).1).content slot =
        a.content slot :=
      (content_put_of_ne hsame).trans (hplanted.content slot hslot.bound)
    constructor
    · intro id hid
      rw [hcontent] at hid
      exact Nat.lt_of_lt_of_le (hslot.object hid) hplanted.objects
    · intro part hpart
      unfold Part at hpart
      rw [hcontent, parts_put, hplanted.toGrows.parts fun id hid => hslot.object hid] at hpart
      exact .inl hpart

/-- Writing elsewhere leaves the storage inside a slot alone. -/
theorem Solid.alike_write (h : a.Solid slot) (houtside : ¬a.Inside slot target) (value : Value) :
    Alike a (a.write target value) slot := by
  intro other hinside
  have hother := h.inside hinside
  have hne : other ≠ target := by
    rintro rfl
    exact houtside hinside
  exact ⟨content_write_of_ne hother.bound hne value,
    fun id hid => instanceOf_write (hother.object hid) target value⟩

/-- A slot keeps its value when a slot that is not inside it is written. -/
theorem Solid.load_write (h : a.Solid slot) (houtside : ¬a.Inside slot target) (value : Value) :
    (a.write target value).load slot = a.load slot :=
  h.load_eq (write_cells a target value) (h.alike_write houtside value)

/-- A slot that exists loads what was written to it. -/
theorem load_write_self (h : target.index < memory.cells.size) (value : Value) :
    (memory.write target value).load target = value := by
  have hplanted := place_planted memory value
  have hbound : target.index < (memory.place value).2.cells.size :=
    Nat.lt_of_lt_of_le h hplanted.cells
  have hcovers : Covers memory (memory.place value).2 (memory.write target value) := by
    constructor
    · intro slot hslot _
      have hne : slot ≠ target := by
        rintro rfl
        omega
      rw [write_eq]
      exact content_put_of_ne hne
    · intro id _ _
      rfl
  unfold load
  rw [loadWithin_succ, write_eq, content_put_self hbound, put_cells]
  exact valueWithin_place memory value hcovers (Nat.sub_le _ _)

end BuildScript.Memory
