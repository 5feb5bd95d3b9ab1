import BuildScript.Proofs.Storage.Writing
import BuildScript.Proofs.Typing.Values

/-!
Storage whose cells hold what they are said to hold: the elements of an array have its type and the
fields of an object are those of its class. A slot with a value keeps the type of that value through
everything that is stored, which is why whatever an array or an object leads to goes on fitting it.
-/

namespace BuildScript.Memory

variable {a b c memory : Memory} {classes later : ClassTable} {slot target : Slot}
  {content : Content}

/-- The type of what a slot holds. -/
def typeAt (memory : Memory) (slot : Slot) : DataType := memory.typeOf (memory.content slot)

/-- The names and types of the fields of an object. -/
def fieldTypes (memory : Memory) (object : Instance) : List (String × DataType) :=
  object.fields.map fun field => (field.1, memory.typeAt field.2)

/-- What a content mentions is there, and elements have exactly the type of their array. -/
def Holds (memory : Memory) : Content → Prop
  | .atom atom => ∀ id, atom.receiver? = some id → id < memory.objects.size
  | .array element items =>
    (∀ item ∈ items, item.index < memory.cells.size ∧ memory.typeAt item = element) ∧
      (element = .void → items = [])
  | .list items => ∀ item ∈ items, item.index < memory.cells.size
  | .object id => id < memory.objects.size

/-- Every cell holds what it is said to hold, and every object is what its class says. -/
structure Typed (classes : ClassTable) (memory : Memory) : Prop where
  solid : ∀ slot : Slot, slot.index < memory.cells.size → memory.Solid slot
  holds : ∀ slot : Slot, slot.index < memory.cells.size → memory.Holds (memory.content slot)
  fields : ∀ id < memory.objects.size, ∀ field ∈ (memory.instanceOf id).fields,
    field.2.index < memory.cells.size
  described : ∀ id < memory.objects.size,
    classes.Describes (memory.instanceOf id).className (memory.fieldTypes (memory.instanceOf id))

/-- Everything of the first memory is in the second, and slots with a value keep its type. -/
structure Settles (a b : Memory) : Prop where
  cells : a.cells.size ≤ b.cells.size
  objects : a.objects.size ≤ b.objects.size
  instanceOf : ∀ id < a.objects.size, b.instanceOf id = a.instanceOf id
  typeAt : ∀ slot : Slot, slot.index < a.cells.size → a.typeAt slot ≠ .void →
    b.typeAt slot = a.typeAt slot

namespace Settles

theorem refl (memory : Memory) : memory.Settles memory :=
  ⟨Nat.le_refl _, Nat.le_refl _, fun _ _ => rfl, fun _ _ _ => rfl⟩

theorem trans (h : a.Settles b) (h' : b.Settles c) : a.Settles c where
  cells := Nat.le_trans h.cells h'.cells
  objects := Nat.le_trans h.objects h'.objects
  instanceOf id hid :=
    (h'.instanceOf id (Nat.lt_of_lt_of_le hid h.objects)).trans (h.instanceOf id hid)
  typeAt slot hslot hvalue := by
    have hbetween := h.typeAt slot hslot hvalue
    rw [← hbetween] at hvalue
    exact (h'.typeAt slot (Nat.lt_of_lt_of_le hslot h.cells) hvalue).trans hbetween

theorem holds (h : a.Settles b) (hholds : a.Holds content) : b.Holds content := by
  cases content with
  | atom atom => exact fun id hid => Nat.lt_of_lt_of_le (hholds id hid) h.objects
  | array element items =>
    refine ⟨fun item hitem => ?_, hholds.2⟩
    obtain ⟨hbound, htype⟩ := hholds.1 item hitem
    refine ⟨Nat.lt_of_lt_of_le hbound h.cells, ?_⟩
    -- an array with an element has an element type, so the element has a value
    have hvalue : a.typeAt item ≠ .void := by
      rw [htype]
      intro hvoid
      rw [hholds.2 hvoid] at hitem
      cases hitem
    rw [h.typeAt item hbound hvalue, htype]
  | list items => exact fun item hitem => Nat.lt_of_lt_of_le (hholds item hitem) h.cells
  | object id => exact Nat.lt_of_lt_of_le hholds h.objects

theorem describes (h : a.Settles b) {object : Instance}
    (hfields : ∀ field ∈ object.fields, field.2.index < a.cells.size)
    (hdescribes : classes.Describes object.className (a.fieldTypes object)) :
    classes.Describes object.className (b.fieldTypes object) := by
  refine hdescribes.kept ?_
  unfold fieldTypes
  rw [List.forall₂_map_left_iff, List.forall₂_map_right_iff, List.forall₂_same]
  intro field hfield
  exact ⟨rfl, h.typeAt field.2 (hfields field hfield)⟩

end Settles

/-- The type of a content depends on its object alone. -/
theorem typeOf_congr (hobject : ∀ id, content = .object id → b.instanceOf id = a.instanceOf id) :
    b.typeOf content = a.typeOf content := by
  cases content with
  | object id =>
    simp only [typeOf]
    rw [hobject id rfl]
  | _ => rfl

theorem Holds.object (h : memory.Holds content) {id : ObjectId} (hid : content = .object id) :
    id < memory.objects.size := by
  subst hid
  exact h

theorem Grows.typeAt (h : a.Grows b) (ha : a.Typed classes) (hslot : slot.index < a.cells.size) :
    b.typeAt slot = a.typeAt slot := by
  unfold Memory.typeAt
  rw [h.content slot hslot]
  exact typeOf_congr fun id hid => h.instanceOf id ((ha.holds slot hslot).object hid)

theorem Grows.settles (h : a.Grows b) (ha : a.Typed classes) : a.Settles b :=
  ⟨h.cells, h.objects, h.instanceOf, fun _ hslot _ => h.typeAt ha hslot⟩

/-- A slot with a value exists. -/
theorem bound_of_typeAt (h : memory.typeAt slot ≠ .void) : slot.index < memory.cells.size := by
  by_contra houtside
  apply h
  unfold typeAt
  rw [content_outside (Nat.le_of_not_lt houtside)]
  rfl

theorem typeAt_push (memory : Memory) (content : Content) :
    (memory.push content).2.typeAt (memory.push content).1 = memory.typeOf content := by
  unfold typeAt
  rw [content_push_self]
  cases content <;> rfl

namespace Typed

theorem mono (h : classes <+: later) (hmemory : memory.Typed classes) : memory.Typed later :=
  ⟨hmemory.solid, hmemory.holds, hmemory.fields, fun id hid => (hmemory.described id hid).mono h⟩

theorem empty (classes : ClassTable) : Memory.empty.Typed classes := by
  refine ⟨?_, ?_, ?_, ?_⟩
  all_goals
    intro _ hbound
    cases hbound

/-- The parts of what is held are solid. -/
theorem solid_part (h : memory.Typed classes) (hholds : memory.Holds content) {part : Slot}
    (hpart : part ∈ memory.parts content) : memory.Solid part := by
  apply h.solid
  cases content with
  | atom atom => cases hpart
  | array element items => exact (hholds.1 part hpart).1
  | list items => exact hholds part hpart
  | object id =>
    obtain ⟨field, hfield, rfl⟩ := List.mem_map.mp hpart
    exact h.fields id hholds field hfield

/-- A new cell for what is held. -/
theorem push (h : memory.Typed classes) (hholds : memory.Holds content) :
    (memory.push content).2.Typed classes := by
  have hgrows := grows_push memory content
  have hsettles := hgrows.settles h
  have hslots {slot : Slot} (hslot : slot.index < (memory.push content).2.cells.size) :
      slot.index < memory.cells.size ∨ slot = (memory.push content).1 := by
    rw [push_cells] at hslot
    rcases Nat.lt_succ_iff_lt_or_eq.mp hslot with hbefore | hnew
    · exact .inl hbefore
    · exact .inr (congrArg Slot.mk hnew)
  have hcontent := content_push_self memory content
  refine ⟨fun slot hslot => ?_, fun slot hslot => ?_, fun id hid field hfield => ?_,
    fun id hid => ?_⟩
  · rcases hslots hslot with hbefore | rfl
    · exact hgrows.solid (h.solid slot hbefore)
    · refine .mk hslot ?_ ?_
      · rw [hcontent]
        exact fun id hid => hholds.object hid
      · intro part hpart
        unfold Part at hpart
        rw [hcontent, parts_push] at hpart
        exact hgrows.solid (h.solid_part hholds hpart)
  · rcases hslots hslot with hbefore | rfl
    · rw [hgrows.content slot hbefore]
      exact hsettles.holds (h.holds slot hbefore)
    · rw [hcontent]
      exact hsettles.holds hholds
  · exact Nat.lt_of_lt_of_le (h.fields id hid field hfield) hgrows.cells
  · exact hsettles.describes (h.fields id hid) (h.described id hid)

/-- A new object of fields that are there. -/
theorem made (h : memory.Typed classes) (object : Instance)
    (hfields : ∀ field ∈ object.fields, field.2.index < memory.cells.size)
    (hdescribes : classes.Describes object.className (memory.fieldTypes object)) :
    (memory.made object).Typed classes := by
  have hgrows := grows_made memory object
  have hsettles := hgrows.settles h
  have hobjects {id : ObjectId} (hid : id < (memory.made object).objects.size) :
      (id < memory.objects.size ∧ (memory.made object).instanceOf id = memory.instanceOf id) ∨
        (memory.made object).instanceOf id = object := by
    have hsize : (memory.made object).objects.size = memory.objects.size + 1 := by
      simp [Memory.made]
    rw [hsize] at hid
    rcases Nat.lt_succ_iff_lt_or_eq.mp hid with hbefore | rfl
    · exact .inl ⟨hbefore, hgrows.instanceOf id hbefore⟩
    · exact .inr (instanceOf_made memory object)
  refine ⟨fun slot hslot => ?_, fun slot hslot => ?_, fun id hid => ?_, fun id hid => ?_⟩
  · exact hgrows.solid (h.solid slot hslot)
  · exact hsettles.holds (h.holds slot hslot)
  · rcases hobjects hid with ⟨hbefore, hsame⟩ | hnew
    · rw [hsame]
      exact h.fields id hbefore
    · rw [hnew]
      exact hfields
  · rcases hobjects hid with ⟨hbefore, hsame⟩ | hnew
    · rw [hsame]
      exact hsettles.describes (h.fields id hbefore) (h.described id hbefore)
    · rw [hnew]
      exact hsettles.describes hfields hdescribes

end Typed

/-- What the values in a memory may mention. -/
def realm (classes : ClassTable) (memory : Memory) : Realm := ⟨classes, memory.objects.size⟩

theorem Settles.realm (h : a.Settles b) (hclasses : classes <+: later) :
    (a.realm classes).Extends (b.realm later) := ⟨hclasses, h.objects⟩

theorem Grows.realm (h : a.Grows b) : (a.realm classes).Extends (b.realm classes) :=
  ⟨List.prefix_rfl, h.objects⟩

mutual

/-- A value gets a place for what it is. -/
theorem place_typed : (memory : Memory) → (value : Value) → memory.Typed classes →
    value.Typed (memory.realm classes) →
      (memory.place value).2.Typed classes ∧ (memory.place value).2.Holds (memory.place value).1 ∧
        (memory.place value).2.typeOf (memory.place value).1 = value.type
  | memory, .atom atom, h, hvalue => by
    simp only [place]
    cases hvalue with
    | atom hreceiver => exact ⟨h, hreceiver, rfl⟩
  | memory, .array element items, h, hvalue => by
    cases hvalue with
    | array htype hvoid hitems =>
      obtain ⟨hplaced, htypes⟩ := placeItems_typed memory items h hitems
      have hslots := (placeItems_sprouts memory items).2
      simp only [place]
      refine ⟨hplaced, ⟨fun slot hslot => ⟨(hslots slot hslot).2, ?_⟩, fun helement => ?_⟩, rfl⟩
      · have hmem := List.mem_map_of_mem (f := (memory.placeItems items).2.typeAt) hslot
        rw [htypes] at hmem
        obtain ⟨item, hitem, hsame⟩ := List.mem_map.mp hmem
        exact hsame.symm.trans (htype item hitem)
      · rw [hvoid helement]
        rfl
  | memory, .list items, h, hvalue => by
    cases hvalue with
    | list hitems =>
      obtain ⟨hplaced, -⟩ := placeItems_typed memory items h hitems
      have hslots := (placeItems_sprouts memory items).2
      simp only [place]
      exact ⟨hplaced, fun slot hslot => (hslots slot hslot).2, rfl⟩
  | memory, .object className fields methods, h, hvalue => by
    cases hvalue with
    | object hfields hdescribes =>
      obtain ⟨hplaced, htypes⟩ := placeFields_typed memory fields h hfields
      have hslots := (placeFields_sprouts memory fields).2
      simp only [place]
      generalize memory.placeFields fields = placed at hplaced htypes hslots
      obtain ⟨slots, after⟩ := placed
      rw [← htypes] at hdescribes
      have hbounds (field : String × Slot) (hmem : field ∈ slots) :
          field.2.index < after.cells.size := (hslots field.2 (List.mem_map_of_mem hmem)).2
      have hmade := hplaced.made ⟨className, slots, methods⟩ hbounds hdescribes
      refine ⟨hmade, ?_, ?_⟩
      · show after.objects.size < (after.objects.push _).size
        simp
      · show DataType.object ((after.made ⟨className, slots, methods⟩).instanceOf _).className = _
        rw [instanceOf_made]
        rfl

theorem placeItems_typed : (memory : Memory) → (values : List Value) → memory.Typed classes →
    (∀ value ∈ values, value.Typed (memory.realm classes)) →
      (memory.placeItems values).2.Typed classes ∧
        (memory.placeItems values).1.map (memory.placeItems values).2.typeAt =
          values.map (·.type)
  | memory, [], h, _ => ⟨h, rfl⟩
  | memory, value :: rest, h, hvalues => by
    obtain ⟨hvalue, hrest⟩ := List.forall_mem_cons.mp hvalues
    obtain ⟨hplaced, hholds, htype⟩ := place_typed memory value h hvalue
    have hgrows := (place_planted memory value).toGrows.trans (grows_push _ (memory.place value).1)
    have hpushed := hplaced.push hholds
    obtain ⟨hafter, htypes⟩ := placeItems_typed _ rest hpushed
      fun value hmem => (hrest value hmem).mono hgrows.realm
    have hgrown :=
      (placeItems_sprouts ((memory.place value).2.push (memory.place value).1).2 rest).1.toGrows
    simp only [placeItems]
    refine ⟨hafter, ?_⟩
    rw [List.map_cons, List.map_cons, htypes, hgrown.typeAt hpushed, typeAt_push, htype]
    exact push_bound _ _

theorem placeFields_typed : (memory : Memory) → (fields : List (String × Value)) →
    memory.Typed classes → (∀ field ∈ fields, field.2.Typed (memory.realm classes)) →
      (memory.placeFields fields).2.Typed classes ∧
        (memory.placeFields fields).1.map
            (fun field => (field.1, (memory.placeFields fields).2.typeAt field.2)) =
          fields.map fun field => (field.1, field.2.type)
  | memory, [], h, _ => ⟨h, rfl⟩
  | memory, (name, value) :: rest, h, hfields => by
    obtain ⟨hvalue, hrest⟩ := List.forall_mem_cons.mp hfields
    obtain ⟨hplaced, hholds, htype⟩ := place_typed memory value h hvalue
    have hgrows := (place_planted memory value).toGrows.trans (grows_push _ (memory.place value).1)
    have hpushed := hplaced.push hholds
    obtain ⟨hafter, htypes⟩ := placeFields_typed _ rest hpushed
      fun field hmem => (hrest field hmem).mono hgrows.realm
    have hgrown :=
      (placeFields_sprouts ((memory.place value).2.push (memory.place value).1).2 rest).1.toGrows
    simp only [placeFields]
    refine ⟨hafter, ?_⟩
    rw [List.map_cons, List.map_cons, htypes, hgrown.typeAt hpushed, typeAt_push, htype]
    exact push_bound _ _

end

/-- What a slot without a value takes is open; a slot with one takes its own type. -/
theorem typeAt_put (hslot : slot.index < memory.cells.size)
    (htype : memory.typeAt target ≠ .void → memory.typeOf content = memory.typeAt target)
    (hvalue : memory.typeAt slot ≠ .void) :
    (memory.put target content).typeAt slot = memory.typeAt slot := by
  have htypeOf (content' : Content) :
      (memory.put target content).typeOf content' = memory.typeOf content' := by
    cases content' <;> rfl
  by_cases hsame : slot = target
  · subst hsame
    rw [← htype hvalue]
    unfold typeAt
    rw [content_put_self hslot, htypeOf]
  · unfold typeAt
    rw [content_put_of_ne hsame, htypeOf]

theorem settles_put
    (htype : memory.typeAt target ≠ .void → memory.typeOf content = memory.typeAt target) :
    memory.Settles (memory.put target content) where
  cells := Nat.le_of_eq (put_cells memory target content).symm
  objects := Nat.le_refl _
  instanceOf _ _ := rfl
  typeAt _ hslot hvalue := typeAt_put hslot htype hvalue

/-- Storing a value of its own type in a slot that has one, or any value in a slot without, leaves
every cell with what it is said to hold. -/
theorem Typed.write (h : memory.Typed classes) (htarget : target.index < memory.cells.size)
    {value : Value} (hvalue : value.Typed (memory.realm classes))
    (htype : memory.typeAt target ≠ .void → value.type = memory.typeAt target) :
    (memory.write target value).Typed classes ∧ memory.Settles (memory.write target value) := by
  have hplanted := place_planted memory value
  obtain ⟨hplaced, hholds, hfits⟩ := place_typed memory value h hvalue
  have hbound : target.index < (memory.place value).2.cells.size :=
    Nat.lt_of_lt_of_le htarget hplanted.cells
  have hput : (memory.place value).2.Settles (memory.write target value) := by
    apply settles_put
    rw [hplanted.toGrows.typeAt h htarget, hfits]
    exact htype
  refine ⟨⟨?_, ?_, ?_, ?_⟩, (hplanted.toGrows.settles h).trans hput⟩
  · intro slot hslot
    by_cases hbefore : slot.index < memory.cells.size
    · exact (h.solid slot hbefore).write target value
    · have hafter := Nat.le_of_not_lt hbefore
      rw [write_eq, put_cells] at hslot
      rw [write_eq]
      exact hplanted.toSprouts.solid_put htarget _ (hplanted.solid slot hafter hslot) hafter
  · intro slot hslot
    apply hput.holds
    rw [write_eq, put_cells] at hslot
    by_cases hsame : slot = target
    · subst hsame
      rw [write_eq, content_put_self hbound]
      exact hholds
    · rw [write_eq, content_put_of_ne hsame]
      exact hplaced.holds slot hslot
  · intro id hid field hfield
    exact Nat.lt_of_lt_of_le (hplaced.fields id hid field hfield) hput.cells
  · intro id hid
    exact hput.describes (hplaced.fields id hid) (hplaced.described id hid)

/-- Nothing solid nests deeper than there are slots. -/
theorem Solid.loadWithin_eq (h : memory.Solid slot) :
    loadWithin memory.cells.size memory slot = memory.load slot :=
  (h.loadWithin_more 1).symm

/-- What a slot loads has the type of what it holds. -/
theorem type_load (memory : Memory) (slot : Slot) :
    (memory.load slot).type = memory.typeAt slot := by
  unfold load typeAt
  rw [loadWithin_succ]
  cases memory.content slot <;> rfl

/-- An object whose fields load typed values is a typed value. -/
theorem Typed.loadInstance (h : memory.Typed classes) {id : ObjectId}
    (hid : id < memory.objects.size)
    (hfields : ∀ field ∈ (memory.instanceOf id).fields,
      (memory.load field.2).Typed (memory.realm classes)) :
    (memory.loadInstance id).Typed (memory.realm classes) := by
  refine .object ?_ ?_
  · rintro _ hmem
    obtain ⟨field, hfield, rfl⟩ := List.mem_map.mp hmem
    exact hfields field hfield
  · have htypes := h.described id hid
    show classes.Describes _ _
    rw [List.map_map]
    simpa only [fieldTypes, Function.comp_def, type_load] using htypes

theorem typeAt_write_self (h : slot.index < memory.cells.size) (value : Value) :
    (memory.write slot value).typeAt slot = value.type := by
  rw [← type_load, load_write_self h]

/-- The value of a slot is what it is said to be. -/
theorem Typed.load (h : memory.Typed classes) (hslot : slot.index < memory.cells.size) :
    (memory.load slot).Typed (memory.realm classes) := by
  have hsolid := h.solid slot hslot
  induction hsolid with
  | @mk slot hbound hobject hparts ih =>
    have hholds := h.holds slot hslot
    have hload (part : Slot) (hpart : part ∈ memory.parts (memory.content slot)) :
        loadWithin memory.cells.size memory part = memory.load part :=
          (hparts part hpart).loadWithin_eq
    have htyped (part : Slot) (hpart : part ∈ memory.parts (memory.content slot)) :
        (memory.load part).Typed (memory.realm classes) := ih part hpart (hparts part hpart).bound
    unfold Memory.load
    rw [loadWithin_succ]
    generalize memory.content slot = content at hholds hload htyped
    cases content with
    | atom atom => exact .atom hholds
    | array element items =>
      have hitems : (items.map (loadWithin memory.cells.size memory)) = items.map memory.load :=
        List.map_congr_left hload
      simp only [valueWithin]
      rw [hitems]
      refine .array ?_ (fun helement => ?_) (List.forall_mem_map.mpr htyped)
      · refine List.forall_mem_map.mpr fun item hitem => ?_
        rw [type_load]
        exact (hholds.1 item hitem).2
      · rw [hholds.2 helement]
        rfl
    | list items =>
      have hitems : (items.map (loadWithin memory.cells.size memory)) = items.map memory.load :=
        List.map_congr_left hload
      simp only [valueWithin]
      rw [hitems]
      exact .list (List.forall_mem_map.mpr htyped)
    | object id =>
      have hfields : (memory.instanceOf id).fields.map
          (fun field => (field.1, loadWithin memory.cells.size memory field.2)) =
            (memory.instanceOf id).fields.map fun field => (field.1, memory.load field.2) :=
        List.map_congr_left fun field hmem =>
          congrArg (Prod.mk field.1) (hload field.2 (List.mem_map_of_mem hmem))
      simp only [valueWithin]
      rw [hfields]
      exact h.loadInstance hholds fun field hmem => htyped field.2 (List.mem_map_of_mem hmem)

end BuildScript.Memory
