import BuildScript.Proofs.Storage.Parts

/-!
Storing a value only adds to storage. What is added is solid and leads to nothing that was there
before, and reading it gives the value back.
-/

namespace BuildScript.Memory

open Relation (ReflTransGen TransGen)

variable {a b c memory : Memory} {slot target : Slot} {content : Content}

theorem parts_congr {root : Content} (hobject : ∀ id, root = .object id →
    b.instanceOf id = a.instanceOf id) : b.parts root = a.parts root := by
  cases root with
  | object id =>
    simp only [parts]
    rw [hobject id rfl]
  | _ => rfl

/-- The second memory has everything that the first one has. -/
structure Grows (a b : Memory) : Prop where
  cells : a.cells.size ≤ b.cells.size
  objects : a.objects.size ≤ b.objects.size
  content : ∀ slot : Slot, slot.index < a.cells.size → b.content slot = a.content slot
  instanceOf : ∀ id < a.objects.size, b.instanceOf id = a.instanceOf id

namespace Grows

theorem refl (memory : Memory) : memory.Grows memory :=
  ⟨Nat.le_refl _, Nat.le_refl _, fun _ _ => rfl, fun _ _ => rfl⟩

theorem trans (h : a.Grows b) (h' : b.Grows c) : a.Grows c where
  cells := Nat.le_trans h.cells h'.cells
  objects := Nat.le_trans h.objects h'.objects
  content slot hslot :=
    (h'.content slot (Nat.lt_of_lt_of_le hslot h.cells)).trans (h.content slot hslot)
  instanceOf id hid :=
    (h'.instanceOf id (Nat.lt_of_lt_of_le hid h.objects)).trans (h.instanceOf id hid)

theorem parts (h : a.Grows b) {content : Content}
    (hobject : ∀ id, content = .object id → id < a.objects.size) :
    b.parts content = a.parts content :=
  parts_congr fun id hid => h.instanceOf id (hobject id hid)

theorem solid (h : a.Grows b) (hsolid : a.Solid slot) : b.Solid slot := by
  apply hsolid.transfer
  intro slot hslot
  have hcontent := h.content slot hslot.bound
  refine ⟨Nat.lt_of_lt_of_le hslot.bound h.cells, ?_, ?_⟩
  · intro id hid
    rw [hcontent] at hid
    exact Nat.lt_of_lt_of_le (hslot.object hid) h.objects
  · intro part hpart
    unfold Part at hpart
    rw [hcontent, h.parts fun id hid => hslot.object hid] at hpart
    exact .inl hpart

end Grows

theorem push_slot (memory : Memory) (content : Content) :
    (memory.push content).1.index = memory.cells.size := rfl

theorem push_cells (memory : Memory) (content : Content) :
    (memory.push content).2.cells.size = memory.cells.size + 1 := by
  simp [push]

theorem push_bound (memory : Memory) (content : Content) :
    (memory.push content).1.index < (memory.push content).2.cells.size := by
  rw [push_slot, push_cells]
  exact Nat.lt_succ_self _

theorem content_push (memory : Memory) (content : Content) (slot : Slot) :
    (memory.push content).2.content slot =
      if slot.index = memory.cells.size then content else memory.content slot := by
  simp only [Memory.content, push, Array.getD_eq_getD_getElem?, Array.getElem?_push]
  split <;> rfl

theorem content_push_self (memory : Memory) (content : Content) :
    (memory.push content).2.content (memory.push content).1 = content :=
  (content_push memory content _).trans (if_pos (push_slot memory content))

theorem parts_push (memory : Memory) (pushed content : Content) :
    (memory.push pushed).2.parts content = memory.parts content := by
  cases content <;> rfl

theorem content_outside (h : memory.cells.size ≤ slot.index) :
    memory.content slot = .atom (.void "") := by
  unfold Memory.content
  rw [Array.getD_eq_getD_getElem?, Array.getElem?_eq_none h]
  rfl

theorem grows_push (memory : Memory) (content : Content) :
    memory.Grows (memory.push content).2 where
  cells := by
    rw [push_cells]
    exact Nat.le_succ _
  objects := Nat.le_refl _
  content slot hslot := by
    rw [content_push, if_neg (Nat.ne_of_lt hslot)]
  instanceOf _ _ := rfl

/-- The memory with one more object. -/
def made (memory : Memory) (object : Instance) : Memory :=
  { memory with objects := memory.objects.push object }

theorem instanceOf_made (memory : Memory) (object : Instance) :
    (memory.made object).instanceOf memory.objects.size = object := by
  simp [made, instanceOf]

theorem grows_made (memory : Memory) (object : Instance) : memory.Grows (memory.made object) where
  cells := Nat.le_refl _
  objects := by simp [made]
  content _ _ := rfl
  instanceOf id hid := by
    have hpush : (memory.objects.push object)[id]? = memory.objects[id]? :=
      Array.getElem?_push_lt hid ▸ (Array.getElem?_eq_getElem hid).symm
    simp only [made, Memory.instanceOf, Array.getD_eq_getD_getElem?]
    rw [hpush]

/-- What the second memory has beyond the first is solid and stays apart from it. -/
structure Sprouts (a b : Memory) : Prop extends Grows a b where
  apart : ∀ slot : Slot, a.cells.size ≤ slot.index → ∀ part, b.Part slot part →
    a.cells.size ≤ part.index
  solid : ∀ slot : Slot, a.cells.size ≤ slot.index → slot.index < b.cells.size → b.Solid slot

/-- The content was made of what the second memory has beyond the first. -/
structure Planted (a b : Memory) (root : Content) : Prop extends Sprouts a b where
  parts : ∀ part ∈ b.parts root, a.cells.size ≤ part.index ∧ part.index < b.cells.size
  object : ∀ id, root = .object id → a.objects.size ≤ id ∧ id < b.objects.size

namespace Sprouts

theorem refl (memory : Memory) : memory.Sprouts memory where
  toGrows := .refl memory
  apart slot hslot part hpart := by
    unfold Part at hpart
    rw [content_outside hslot] at hpart
    cases hpart
  solid slot hslot hbound := absurd hbound (Nat.not_lt.mpr hslot)

theorem trans (h : a.Sprouts b) (h' : b.Sprouts c) : a.Sprouts c where
  toGrows := h.toGrows.trans h'.toGrows
  apart slot hslot part hpart := by
    by_cases hbound : slot.index < b.cells.size
    · have hsolid := h.solid slot hslot hbound
      unfold Part at hpart
      rw [h'.content slot hbound, h'.toGrows.parts fun id hid => hsolid.object hid] at hpart
      exact h.apart slot hslot part hpart
    · have hcells := h.cells
      have hpart := h'.apart slot (Nat.le_of_not_lt hbound) part hpart
      omega
  solid slot hslot hbound := by
    by_cases hbefore : slot.index < b.cells.size
    · exact h'.toGrows.solid (h.solid slot hslot hbefore)
    · exact h'.solid slot (Nat.le_of_not_lt hbefore) hbound

/-- An object of planted fields is planted. -/
theorem made (h : a.Sprouts b) (object : Instance)
    (hfields : ∀ field ∈ object.fields.map (·.2), a.cells.size ≤ field.index ∧
      field.index < b.cells.size) : Planted a (b.made object) (.object b.objects.size) where
  toGrows := h.toGrows.trans (grows_made b object)
  apart slot hslot part hpart := by
    by_cases hbound : slot.index < b.cells.size
    · have hsolid := h.solid slot hslot hbound
      have hsame := (grows_made b object).parts fun id hid => hsolid.object hid
      apply h.apart slot hslot part
      unfold Part
      rw [← hsame]
      exact hpart
    · have hempty : (b.made object).content slot = .atom (.void "") :=
        content_outside (Nat.le_of_not_lt hbound)
      unfold Part at hpart
      rw [hempty] at hpart
      cases hpart
  solid slot hslot hbound := (grows_made b object).solid (h.solid slot hslot hbound)
  parts part hpart := by
    simp only [Memory.parts, instanceOf_made] at hpart
    exact hfields part hpart
  object id hid := by
    cases hid
    simp only [Memory.made, Array.size_push]
    exact ⟨h.objects, Nat.lt_succ_self _⟩

end Sprouts

namespace Planted

theorem solidPart (h : Planted a b content) {part : Slot} (hpart : part ∈ b.parts content) :
    b.Solid part :=
  h.solid part (h.parts part hpart).1 (h.parts part hpart).2

/-- A slot for a planted content is solid. -/
theorem push (h : Planted a b content) : a.Sprouts (b.push content).2 where
  toGrows := h.toGrows.trans (grows_push b content)
  apart slot hslot part hpart := by
    unfold Part at hpart
    rw [content_push, parts_push] at hpart
    split at hpart
    · exact (h.parts part hpart).1
    · exact h.apart slot hslot part hpart
  solid slot hslot hbound := by
    rw [push_cells] at hbound
    by_cases hnew : slot.index = b.cells.size
    · have hcontent : (b.push content).2.content slot = content := by
        rw [content_push, if_pos hnew]
      apply Solid.mk
      · rw [push_cells]
        exact hbound
      · intro id hid
        rw [hcontent] at hid
        exact (h.object id hid).2
      · intro part hpart
        unfold Part at hpart
        rw [hcontent, parts_push] at hpart
        exact (grows_push b content).solid (h.solidPart hpart)
    · exact (grows_push b content).solid (h.solid slot hslot (by omega))

end Planted

mutual

/-- Storing a value plants its content. -/
theorem place_planted : (memory : Memory) → (value : Value) →
    Planted memory (memory.place value).2 (memory.place value).1
  | memory, .atom atom => by
    simp only [place]
    exact ⟨.refl memory, List.forall_mem_nil _, fun _ hid => by cases hid⟩
  | memory, .array element items => by
    obtain ⟨hsprouts, hslots⟩ := placeItems_sprouts memory items
    simp only [place]
    exact ⟨hsprouts, hslots, fun _ hid => by cases hid⟩
  | memory, .list items => by
    obtain ⟨hsprouts, hslots⟩ := placeItems_sprouts memory items
    simp only [place]
    exact ⟨hsprouts, hslots, fun _ hid => by cases hid⟩
  | memory, .object className fields methods => by
    obtain ⟨hsprouts, hslots⟩ := placeFields_sprouts memory fields
    simp only [place]
    generalize memory.placeFields fields = placed at hsprouts hslots
    obtain ⟨slots, after⟩ := placed
    exact hsprouts.made ⟨className, slots, methods⟩ hslots

theorem placeItems_sprouts : (memory : Memory) → (values : List Value) →
    memory.Sprouts (memory.placeItems values).2 ∧
      ∀ slot ∈ (memory.placeItems values).1, memory.cells.size ≤ slot.index ∧
        slot.index < (memory.placeItems values).2.cells.size
  | memory, [] => by
    simp only [placeItems]
    exact ⟨.refl memory, List.forall_mem_nil _⟩
  | memory, value :: rest => by
    have hvalue := (place_planted memory value).push
    obtain ⟨hrest, hslots⟩ :=
      placeItems_sprouts ((memory.place value).2.push (memory.place value).1).2 rest
    simp only [placeItems]
    refine ⟨hvalue.trans hrest, ?_⟩
    have hplaced := (place_planted memory value).cells
    have hcells := push_cells (memory.place value).2 (memory.place value).1
    have hgrown := hrest.cells
    intro slot hmem
    rcases List.mem_cons.mp hmem with rfl | hmem
    · rw [push_slot]
      omega
    · have hslot := hslots slot hmem
      omega

theorem placeFields_sprouts : (memory : Memory) → (fields : List (String × Value)) →
    memory.Sprouts (memory.placeFields fields).2 ∧
      ∀ slot ∈ (memory.placeFields fields).1.map (·.2), memory.cells.size ≤ slot.index ∧
        slot.index < (memory.placeFields fields).2.cells.size
  | memory, [] => by
    simp only [placeFields]
    exact ⟨.refl memory, List.forall_mem_nil _⟩
  | memory, (name, value) :: rest => by
    have hvalue := (place_planted memory value).push
    obtain ⟨hrest, hslots⟩ :=
      placeFields_sprouts ((memory.place value).2.push (memory.place value).1).2 rest
    simp only [placeFields]
    refine ⟨hvalue.trans hrest, ?_⟩
    have hplaced := (place_planted memory value).cells
    have hcells := push_cells (memory.place value).2 (memory.place value).1
    have hgrown := hrest.cells
    intro slot hmem
    rcases List.mem_cons.mp hmem with rfl | hmem
    · rw [push_slot]
      omega
    · have hslot := hslots slot hmem
      omega

end

/-- Everything that the second memory has beyond the first, the third has too. -/
structure Covers (a b c : Memory) : Prop where
  content : ∀ slot : Slot, a.cells.size ≤ slot.index → slot.index < b.cells.size →
    c.content slot = b.content slot
  instanceOf : ∀ id, a.objects.size ≤ id → id < b.objects.size → c.instanceOf id = b.instanceOf id

/-- An earlier part of what was added. -/
theorem Covers.earlier {mid : Memory} (h : Covers a b c) (hgrows : mid.Grows b) :
    Covers a mid c where
  content slot hslot hbound :=
    (h.content slot hslot (Nat.lt_of_lt_of_le hbound hgrows.cells)).trans
      (hgrows.content slot hbound)
  instanceOf id hid hbound :=
    (h.instanceOf id hid (Nat.lt_of_lt_of_le hbound hgrows.objects)).trans
      (hgrows.instanceOf id hbound)

theorem Covers.later {mid : Memory} (h : Covers a b c) (hgrows : a.Grows mid) :
    Covers mid b c where
  content slot hslot hbound := h.content slot (Nat.le_trans hgrows.cells hslot) hbound
  instanceOf id hid hbound := h.instanceOf id (Nat.le_trans hgrows.objects hid) hbound

/-- A slot given to a value that was stored loads the value. -/
theorem Covers.loadWithin_push {depth : Nat} {value : Value}
    (hcovers : Covers a (b.push content).2 c) (hgrows : a.Grows b)
    (hvalue : ∀ depth, b.cells.size - a.cells.size ≤ depth → c.valueWithin depth content = value)
    (hdepth : (b.push content).2.cells.size - a.cells.size ≤ depth) :
    loadWithin depth c (b.push content).1 = value := by
  rw [push_cells] at hdepth
  have hcells := hgrows.cells
  have hcontent : c.content (b.push content).1 = content := by
    rw [hcovers.content _ (by rw [push_slot]; exact hcells) (push_bound b content),
      content_push_self]
  obtain ⟨depth, rfl⟩ : ∃ lower, depth = lower + 1 := ⟨depth - 1, by omega⟩
  rw [loadWithin_succ, hcontent]
  exact hvalue depth (by omega)

mutual

/-- A stored value is read back, as far down as slots were added. -/
theorem valueWithin_place : (a : Memory) → (value : Value) → {c : Memory} → {depth : Nat} →
    Covers a (a.place value).2 c → (a.place value).2.cells.size - a.cells.size ≤ depth →
    c.valueWithin depth (a.place value).1 = value
  | a, .atom atom, c, depth, _, _ => by
    simp only [place]
    rfl
  | a, .array element items, c, depth, hcovers, hdepth => by
    simp only [place] at hcovers hdepth ⊢
    exact congrArg (Value.array element) (loadItems_place a items hcovers hdepth)
  | a, .list items, c, depth, hcovers, hdepth => by
    simp only [place] at hcovers hdepth ⊢
    exact congrArg Value.list (loadItems_place a items hcovers hdepth)
  | a, .object className fields methods, c, depth, hcovers, hdepth => by
    simp only [place] at hcovers hdepth ⊢
    have hsprouts := (placeFields_sprouts a fields).1
    have hread := @loadFields_place a fields c depth
    generalize a.placeFields fields = placed at hcovers hdepth hsprouts hread
    obtain ⟨slots, after⟩ := placed
    have hmade : c.instanceOf after.objects.size = ⟨className, slots, methods⟩ := by
      rw [hcovers.instanceOf _ hsprouts.objects (by simp)]
      exact instanceOf_made after ⟨className, slots, methods⟩
    have hearlier : Covers a after c :=
      hcovers.earlier (grows_made after ⟨className, slots, methods⟩)
    simp only [valueWithin, hmade]
    congr 1
    exact hread hearlier hdepth

theorem loadItems_place : (a : Memory) → (values : List Value) → {c : Memory} → {depth : Nat} →
    Covers a (a.placeItems values).2 c → (a.placeItems values).2.cells.size - a.cells.size ≤ depth →
    (a.placeItems values).1.map (loadWithin depth c) = values
  | a, [], c, depth, _, _ => by
    simp only [placeItems]
    rfl
  | a, value :: rest, c, depth, hcovers, hdepth => by
    have hplaced := (place_planted a value).toGrows
    have hpushed := grows_push (a.place value).2 (a.place value).1
    have hrest := (placeItems_sprouts ((a.place value).2.push (a.place value).1).2 rest).1.toGrows
    have hcells := hpushed.cells
    have hgrown := hrest.cells
    simp only [placeItems] at hcovers hdepth ⊢
    have hfirst := hcovers.earlier hrest
    rw [List.map_cons, List.cons.injEq]
    constructor
    · apply hfirst.loadWithin_push hplaced
      · intro depth hdepth
        exact valueWithin_place a value (hfirst.earlier hpushed) hdepth
      · omega
    · apply loadItems_place _ rest (hcovers.later (hplaced.trans hpushed))
      have hbefore := hplaced.cells
      omega

theorem loadFields_place : (a : Memory) → (fields : List (String × Value)) → {c : Memory} →
    {depth : Nat} → Covers a (a.placeFields fields).2 c →
    (a.placeFields fields).2.cells.size - a.cells.size ≤ depth →
    (a.placeFields fields).1.map (fun (name, field) => (name, loadWithin depth c field)) = fields
  | a, [], c, depth, _, _ => by
    simp only [placeFields]
    rfl
  | a, (name, value) :: rest, c, depth, hcovers, hdepth => by
    have hplaced := (place_planted a value).toGrows
    have hpushed := grows_push (a.place value).2 (a.place value).1
    have hrest := (placeFields_sprouts ((a.place value).2.push (a.place value).1).2 rest).1.toGrows
    have hcells := hpushed.cells
    have hgrown := hrest.cells
    simp only [placeFields] at hcovers hdepth ⊢
    have hfirst := hcovers.earlier hrest
    rw [List.map_cons, List.cons.injEq]
    constructor
    · apply congrArg (Prod.mk name)
      apply hfirst.loadWithin_push hplaced
      · intro depth hdepth
        exact valueWithin_place a value (hfirst.earlier hpushed) hdepth
      · omega
    · apply loadFields_place _ rest (hcovers.later (hplaced.trans hpushed))
      have hbefore := hplaced.cells
      omega

end

end BuildScript.Memory
