import BuildScript.Proofs.Scopes.Levels
import BuildScript.Proofs.Storage.Writing

/-!
Every slot has one owner. A slot is an element of one array or list, a field of one object, or the
slot of one variable, and an object is held in one slot, except that a receiver is a second way to
an object that lies somewhere else. Two slots that have something inside them in common are then one
inside the other.
-/

namespace BuildScript

/-- What a slot belongs to. -/
inductive Owner where
  | item (whole : Slot) (position : Nat)
  | field (object : ObjectId) (position : Nat)
  | own (x : Variable)
  /-- The slot of a receiver, which leads to an object that is held somewhere else. -/
  | receiver (x : Variable)

/-- What every slot belongs to, and where every object is held. -/
structure Ownership where
  owner : Slot → Owner
  holder : ObjectId → Slot

def Content.items : Content → List Slot
  | .array _ items | .list items => items
  | _ => []

namespace Ownership

open Memory (place_planted placeItems_sprouts placeFields_sprouts push_slot push_bound grows_push
  push_cells content_push grows_made instanceOf_made write_eq content_put_self content_put_of_ne
  content_put_outside put_cells)
open Relation (ReflTransGen TransGen)

variable {o o' o'' : Ownership} {a b memory : Memory} {slot target : Slot} {owner : Owner}
  {content : Content}

/-- What a slot holds belongs to it. Of a receiver only the elements do. -/
structure Contains (o : Ownership) (memory : Memory) (slot : Slot) (owner : Owner)
    (content : Content) : Prop where
  items : ∀ position part, content.items[position]? = some part →
    o.owner part = .item slot position ∧ part.index < memory.cells.size
  holds : ∀ id, content = .object id → (∀ x, owner ≠ .receiver x) →
    o.holder id = slot ∧ id < memory.objects.size

structure Describes (o : Ownership) (memory : Memory) : Prop where
  cell : ∀ slot, o.Contains memory slot (o.owner slot) (memory.content slot)
  fields : ∀ id position name part, (memory.instanceOf id).fields[position]? = some (name, part) →
    o.owner part = .field id position ∧ part.index < memory.cells.size

/-- The same for everything in the memory. -/
structure Extends (o o' : Ownership) (memory : Memory) : Prop where
  owner : ∀ slot : Slot, slot.index < memory.cells.size → o'.owner slot = o.owner slot
  holder : ∀ id < memory.objects.size, o'.holder id = o.holder id

theorem Extends.refl (o : Ownership) (memory : Memory) : o.Extends o memory :=
  ⟨fun _ _ => rfl, fun _ _ => rfl⟩

theorem Extends.trans (h : o.Extends o' a) (hgrows : a.Grows b) (h' : o'.Extends o'' b) :
    o.Extends o'' a where
  owner slot hslot :=
    (h'.owner slot (Nat.lt_of_lt_of_le hslot hgrows.cells)).trans (h.owner slot hslot)
  holder id hid :=
    (h'.holder id (Nat.lt_of_lt_of_le hid hgrows.objects)).trans (h.holder id hid)

theorem Contains.extend (h : o.Contains a slot owner content) (hextends : o.Extends o' a)
    (hgrows : a.Grows b) : o'.Contains b slot owner content where
  items position part hpart := by
    obtain ⟨howner, hbound⟩ := h.items position part hpart
    exact ⟨(hextends.owner part hbound).trans howner, Nat.lt_of_lt_of_le hbound hgrows.cells⟩
  holds id hid hnot := by
    obtain ⟨hholder, hmade⟩ := h.holds id hid hnot
    exact ⟨(hextends.holder id hmade).trans hholder, Nat.lt_of_lt_of_le hmade hgrows.objects⟩

/-- With another owner for a slot. -/
def give (o : Ownership) (slot : Slot) (owner : Owner) : Ownership :=
  { o with owner := fun other => if other = slot then owner else o.owner other }

theorem give_self (o : Ownership) (slot : Slot) (owner : Owner) :
    (o.give slot owner).owner slot = owner := if_pos rfl

theorem give_new (o : Ownership) (owner : Owner) {part : Slot}
    (hpart : part.index < memory.cells.size) :
    (o.give ⟨memory.cells.size⟩ owner).owner part = o.owner part := by
  apply if_neg
  rintro rfl
  exact absurd hpart (Nat.lt_irrefl _)

/-- A new slot may be given to anything, with a content that belongs to it. -/
theorem Describes.push (h : o.Describes memory)
    (hcontains : o.Contains memory ⟨memory.cells.size⟩ owner content) :
    (o.give ⟨memory.cells.size⟩ owner).Describes (memory.push content).2 ∧
      o.Extends (o.give ⟨memory.cells.size⟩ owner) memory := by
  have hextends : o.Extends (o.give ⟨memory.cells.size⟩ owner) memory :=
    ⟨fun slot hslot => give_new o owner hslot, fun _ _ => rfl⟩
  have hgrows := grows_push memory content
  refine ⟨⟨?_, ?_⟩, hextends⟩
  · intro slot
    rw [content_push]
    split
    · rename_i hslot
      obtain rfl : slot = ⟨memory.cells.size⟩ := congrArg Slot.mk hslot
      rw [give_self]
      exact hcontains.extend hextends hgrows
    · rename_i hslot
      have hother : (o.give ⟨memory.cells.size⟩ owner).owner slot = o.owner slot := by
        apply if_neg
        rintro rfl
        exact hslot rfl
      rw [hother]
      exact (h.cell slot).extend hextends hgrows
  · intro id position name part hpart
    obtain ⟨howner, hbound⟩ := h.fields id position name part hpart
    exact ⟨(hextends.owner part hbound).trans howner, Nat.lt_of_lt_of_le hbound hgrows.cells⟩

/-- A new object may be held anywhere. -/
theorem Describes.made (h : o.Describes memory) (object : Instance) (whole : Slot)
    (hfields : ∀ position name part, object.fields[position]? = some (name, part) →
      o.owner part = .field memory.objects.size position ∧ part.index < memory.cells.size) :
    ∃ o', o.Extends o' memory ∧ o'.Describes (memory.made object) ∧
      o'.holder memory.objects.size = whole ∧ o'.owner = o.owner := by
  let o' : Ownership := { o with
    holder := fun id => if id = memory.objects.size then whole else o.holder id }
  have hextends : o.Extends o' memory :=
    ⟨fun _ _ => rfl, fun id hid => if_neg (Nat.ne_of_lt hid)⟩
  have hgrows := grows_made memory object
  refine ⟨o', hextends, ⟨?_, ?_⟩, if_pos rfl, rfl⟩
  · intro slot
    exact (h.cell slot).extend hextends hgrows
  · intro id position name part hpart
    by_cases hid : id = memory.objects.size
    · subst hid
      rw [instanceOf_made] at hpart
      exact hfields position name part hpart
    · by_cases hbefore : id < memory.objects.size
      · rw [hgrows.instanceOf id hbefore] at hpart
        exact h.fields id position name part hpart
      · have hnone : (memory.made object).instanceOf id = ⟨"", [], []⟩ := by
          have hsize : (memory.made object).objects.size ≤ id := by
            simp only [Memory.made, Array.size_push]
            exact Nat.lt_of_le_of_ne (Nat.le_of_not_lt hbefore) (Ne.symm hid)
          unfold Memory.instanceOf
          rw [Array.getD_eq_getD_getElem?, Array.getElem?_eq_none hsize]
          rfl
        rw [hnone] at hpart
        cases hpart

/-- A content whose parts belong to it may be put in a new slot of any owner. -/
theorem Describes.pushed (hextends : o.Extends o' a) (hgrows : a.Grows b) (h : o'.Describes b)
    (hcontains : o'.Contains b ⟨b.cells.size⟩ owner content) :
    ∃ o'', o.Extends o'' a ∧ o''.Describes (b.push content).2 ∧
      o''.owner (b.push content).1 = owner := by
  obtain ⟨hpushed, hextends'⟩ := h.push hcontains
  exact ⟨_, hextends.trans hgrows hextends', hpushed, give_self o' _ owner⟩

mutual

/-- The parts of a stored value belong to it, wherever it is put. -/
theorem Describes.place : (memory : Memory) → (value : Value) → (whole : Slot) →
    {o : Ownership} → o.Describes memory →
    ∃ o', o.Extends o' memory ∧ o'.Describes (memory.place value).2 ∧
      ∀ owner, o'.Contains (memory.place value).2 whole owner (memory.place value).1
  | memory, .atom atom, whole, o, h => by
    simp only [Memory.place]
    refine ⟨o, .refl o memory, h, fun owner => ⟨?_, ?_⟩⟩
    · intro position part hpart
      cases hpart
    · intro id hid
      cases hid
  | memory, .array element items, whole, o, h => by
    obtain ⟨o', hextends, hdescribes, hparts⟩ := h.placeItems memory items (.item whole)
    simp only [Memory.place]
    refine ⟨o', hextends, hdescribes, fun owner => ⟨hparts, ?_⟩⟩
    intro id hid
    cases hid
  | memory, .list items, whole, o, h => by
    obtain ⟨o', hextends, hdescribes, hparts⟩ := h.placeItems memory items (.item whole)
    simp only [Memory.place]
    refine ⟨o', hextends, hdescribes, fun owner => ⟨hparts, ?_⟩⟩
    intro id hid
    cases hid
  | memory, .object className fields methods, whole, o, h => by
    have hgrows := (placeFields_sprouts memory fields).1.toGrows
    obtain ⟨o', hextends, hdescribes, hparts⟩ :=
      h.placeFields memory fields (.field (memory.placeFields fields).2.objects.size)
    simp only [Memory.place]
    generalize memory.placeFields fields = placed at hgrows hdescribes hparts
    obtain ⟨slots, after⟩ := placed
    obtain ⟨o'', hextends', hdescribes', hholder, howner⟩ :=
      hdescribes.made ⟨className, slots, methods⟩ whole hparts
    refine ⟨o'', hextends.trans hgrows hextends', hdescribes', fun owner => ⟨?_, ?_⟩⟩
    · intro position part hpart
      cases hpart
    · intro id hid _
      cases hid
      refine ⟨hholder, ?_⟩
      simp only [Array.size_push]
      exact Nat.lt_succ_self _

theorem Describes.placeItems : (memory : Memory) → (values : List Value) →
    (belongs : Nat → Owner) → {o : Ownership} → o.Describes memory →
    ∃ o', o.Extends o' memory ∧ o'.Describes (memory.placeItems values).2 ∧
      ∀ (position : Nat) (part : Slot), (memory.placeItems values).1[position]? = some part →
        o'.owner part = belongs position ∧
          part.index < (memory.placeItems values).2.cells.size
  | memory, [], belongs, o, h => by
    simp only [Memory.placeItems]
    refine ⟨o, .refl o memory, h, ?_⟩
    intro position part hpart
    cases hpart
  | memory, value :: rest, belongs, o, h => by
    have hplanted := (place_planted memory value).toGrows
    have hpush := grows_push (memory.place value).2 (memory.place value).1
    obtain ⟨o₁, hextends₁, hdescribes₁, hcontains⟩ :=
      h.place memory value ⟨(memory.place value).2.cells.size⟩
    obtain ⟨o₂, hextends₂, hdescribes₂, howner⟩ :=
      hdescribes₁.pushed hextends₁ hplanted (hcontains (belongs 0))
    obtain ⟨o₃, hextends₃, hdescribes₃, hrest⟩ := hdescribes₂.placeItems
      ((memory.place value).2.push (memory.place value).1).2 rest fun position => belongs (position + 1)
    have hgrown := (placeItems_sprouts ((memory.place value).2.push (memory.place value).1).2
      rest).1.toGrows
    simp only [Memory.placeItems]
    refine ⟨o₃, hextends₂.trans (hplanted.trans hpush) hextends₃, hdescribes₃, ?_⟩
    intro position part hpart
    cases position with
    | zero =>
      cases hpart
      have hnew := push_bound (memory.place value).2 (memory.place value).1
      exact ⟨(hextends₃.owner _ hnew).trans howner, Nat.lt_of_lt_of_le hnew hgrown.cells⟩
    | succ position => exact hrest position part hpart

theorem Describes.placeFields : (memory : Memory) → (fields : List (String × Value)) →
    (belongs : Nat → Owner) → {o : Ownership} → o.Describes memory →
    ∃ o', o.Extends o' memory ∧ o'.Describes (memory.placeFields fields).2 ∧
      ∀ (position : Nat) (name : String) (part : Slot),
        (memory.placeFields fields).1[position]? = some (name, part) →
          o'.owner part = belongs position ∧
            part.index < (memory.placeFields fields).2.cells.size
  | memory, [], belongs, o, h => by
    simp only [Memory.placeFields]
    refine ⟨o, .refl o memory, h, ?_⟩
    intro position name part hpart
    cases hpart
  | memory, (name, value) :: rest, belongs, o, h => by
    have hplanted := (place_planted memory value).toGrows
    have hpush := grows_push (memory.place value).2 (memory.place value).1
    obtain ⟨o₁, hextends₁, hdescribes₁, hcontains⟩ :=
      h.place memory value ⟨(memory.place value).2.cells.size⟩
    obtain ⟨o₂, hextends₂, hdescribes₂, howner⟩ :=
      hdescribes₁.pushed hextends₁ hplanted (hcontains (belongs 0))
    obtain ⟨o₃, hextends₃, hdescribes₃, hrest⟩ := hdescribes₂.placeFields
      ((memory.place value).2.push (memory.place value).1).2 rest fun position => belongs (position + 1)
    have hgrown := (placeFields_sprouts ((memory.place value).2.push (memory.place value).1).2
      rest).1.toGrows
    simp only [Memory.placeFields]
    refine ⟨o₃, hextends₂.trans (hplanted.trans hpush) hextends₃, hdescribes₃, ?_⟩
    intro position field part hpart
    cases position with
    | zero =>
      cases hpart
      have hnew := push_bound (memory.place value).2 (memory.place value).1
      exact ⟨(hextends₃.owner _ hnew).trans howner, Nat.lt_of_lt_of_le hnew hgrown.cells⟩
    | succ position => exact hrest position field part hpart

end

namespace Describes

/-- A value in a slot of its own may belong to anything. -/
theorem alloc (h : o.Describes memory) (value : Value) (owner : Owner) :
    ∃ o', o.Extends o' memory ∧ o'.Describes (memory.alloc value).2 ∧
      o'.owner (memory.alloc value).1 = owner := by
  obtain ⟨o', hextends, hdescribes, hcontains⟩ :=
    h.place memory value ⟨(memory.place value).2.cells.size⟩
  exact hdescribes.pushed hextends (place_planted memory value).toGrows (hcontains owner)

/-- What replaces the content of a slot belongs to the slot, as the content before did. -/
theorem write (h : o.Describes memory) (target : Slot) (value : Value) :
    ∃ o', o.Extends o' memory ∧ o'.Describes (memory.write target value) := by
  obtain ⟨o', hextends, hdescribes, hcontains⟩ := h.place memory value target
  rw [write_eq]
  by_cases htarget : target.index < (memory.place value).2.cells.size
  · refine ⟨o', hextends, ⟨?_, ?_⟩⟩
    · intro slot
      by_cases hslot : slot = target
      · subst hslot
        rw [content_put_self htarget]
        obtain ⟨hitems, hholds⟩ := hcontains (o'.owner slot)
        refine ⟨?_, hholds⟩
        intro position part hpart
        rw [put_cells]
        exact hitems position part hpart
      · rw [content_put_of_ne hslot]
        obtain ⟨hitems, hholds⟩ := hdescribes.cell slot
        refine ⟨?_, hholds⟩
        intro position part hpart
        rw [put_cells]
        exact hitems position part hpart
    · intro id position name part hpart
      rw [put_cells]
      exact hdescribes.fields id position name part hpart
  · rw [content_put_outside (Nat.le_of_not_lt htarget)]
    exact ⟨o', hextends, hdescribes⟩

variable (h : o.Describes memory) {whole whole' part other : Slot}
include h

/-- What has a slot as a part. -/
theorem part_owner (hpart : memory.Part whole part) :
    (∃ position, o.owner part = .item whole position) ∨
      ∃ id position, memory.content whole = .object id ∧ o.owner part = .field id position := by
  have hitems := (h.cell whole).items
  unfold Memory.Part at hpart
  cases hcontent : memory.content whole with
  | atom atom =>
    rw [hcontent] at hpart
    cases hpart
  | array element items | list items =>
    rw [hcontent] at hpart hitems
    obtain ⟨position, hposition⟩ := List.mem_iff_getElem?.mp hpart
    exact .inl ⟨position, (hitems position part hposition).1⟩
  | object id =>
    rw [hcontent] at hpart
    obtain ⟨⟨name, slot⟩, hfield, rfl⟩ := List.mem_map.mp hpart
    obtain ⟨position, hposition⟩ := List.mem_iff_getElem?.mp hfield
    exact .inr ⟨id, position, rfl, (h.fields id position name slot hposition).1⟩

/-- A slot is a part of one slot, or of those that hold its object. -/
theorem wholes (hpart : memory.Part whole part) (hpart' : memory.Part whole' part) :
    whole = whole' ∨
      ∃ id, memory.content whole = .object id ∧ memory.content whole' = .object id := by
  rcases h.part_owner hpart with ⟨position, howner⟩ | ⟨id, position, hcontent, howner⟩
  · rcases h.part_owner hpart' with ⟨position', howner'⟩ | ⟨id', position', -, howner'⟩
    · rw [howner] at howner'
      cases howner'
      exact .inl rfl
    · rw [howner] at howner'
      cases howner'
  · rcases h.part_owner hpart' with ⟨position', howner'⟩ | ⟨id', position', hcontent', howner'⟩
    · rw [howner] at howner'
      cases howner'
    · rw [howner] at howner'
      cases howner'
      exact .inr ⟨id, hcontent, hcontent'⟩

/-- An object is held in one slot, apart from receivers. -/
theorem one_holder {id : ObjectId} (hcontent : memory.content whole = .object id)
    (hcontent' : memory.content whole' = .object id) :
    whole = whole' ∨ (∃ x, o.owner whole = .receiver x) ∨ ∃ x, o.owner whole' = .receiver x := by
  by_cases hwhole : ∃ x, o.owner whole = .receiver x
  · exact .inr (.inl hwhole)
  · by_cases hwhole' : ∃ x, o.owner whole' = .receiver x
    · exact .inr (.inr hwhole')
    · have hholder := ((h.cell whole).holds id hcontent fun x hx => hwhole ⟨x, hx⟩).1
      have hholder' := ((h.cell whole').holds id hcontent' fun x hx => hwhole' ⟨x, hx⟩).1
      exact .inl (hholder.symm.trans hholder')

/-- The slot of a variable is no part of anything. -/
theorem root (hroot : (∃ x, o.owner part = .own x) ∨ ∃ x, o.owner part = .receiver x)
    (hinside : memory.Inside whole part) : whole = part := by
  rcases ReflTransGen.cases_tail hinside with hsame | ⟨upper, -, hpart⟩
  · exact hsame.symm
  · rcases h.part_owner hpart with ⟨position, howner⟩ | ⟨id, position, -, howner⟩
    · rcases hroot with ⟨x, hx⟩ | ⟨x, hx⟩ <;> cases howner.symm.trans hx
    · rcases hroot with ⟨x, hx⟩ | ⟨x, hx⟩ <;> cases howner.symm.trans hx

end Describes

/-- The slot is that of a receiver, whose object also lies in the other slot. -/
def Doubles (o : Ownership) (memory : Memory) (slot other : Slot) : Prop :=
  (∃ x, o.owner slot = .receiver x) ∧ ∃ id held, memory.content slot = .object id ∧
    memory.Inside other held ∧ memory.content held = .object id

/-- Two slots with something inside them in common are one inside the other, or one of them is the
slot of a receiver and the other leads to its object. -/
theorem Describes.meet (h : o.Describes memory) {other : Slot}
    (hinside : memory.Inside slot target) (hother : memory.Inside other target) :
    memory.Inside slot other ∨ memory.Inside other slot ∨ o.Doubles memory slot other ∨
      o.Doubles memory other slot := by
  induction hinside with
  | refl => exact .inr (.inl hother)
  | @tail upper lower hupper hpart ih =>
    rcases ReflTransGen.cases_tail hother with hsame | ⟨upper', hupper', hpart'⟩
    · rw [← hsame]
      exact .inl (hupper.tail hpart)
    · rcases h.wholes hpart hpart' with rfl | ⟨id, hcontent, hcontent'⟩
      · exact ih hupper'
      · rcases h.one_holder hcontent hcontent' with rfl | hreceiver | hreceiver
        · exact ih hupper'
        · obtain rfl := h.root (.inr hreceiver) hupper
          exact .inr (.inr (.inl ⟨hreceiver, id, upper', hcontent, hupper', hcontent'⟩))
        · obtain rfl := h.root (.inr hreceiver) hupper'
          exact .inr (.inr (.inr ⟨hreceiver, id, upper, hcontent', hupper, hcontent⟩))

/-- Different parts of one slot have nothing inside them in common. -/
theorem Describes.parts_apart (h : o.Describes memory) {whole part part' : Slot}
    (hsolid : memory.Solid whole) (hpart : memory.Part whole part)
    (hpart' : memory.Part whole part') (hne : part ≠ part') (hinside : memory.Inside part target) :
    ¬memory.Inside part' target := by
  intro hinside'
  -- A part inside another part of the same slot would lie inside itself.
  have hcycle {inner outer : Slot} (hinner : memory.Part whole inner)
      (houter : memory.Part whole outer) (hdiffer : outer ≠ inner) :
      ¬memory.Inside outer inner := by
    intro hdown
    rcases ReflTransGen.cases_tail hdown with hsame | ⟨upper, hupper, hlast⟩
    · exact hdiffer hsame.symm
    · have hback : memory.Part upper outer := by
        rcases h.wholes hlast hinner with rfl | ⟨id, hcontent, hcontent'⟩
        · exact houter
        · unfold Memory.Part at houter ⊢
          rw [hcontent]
          rwa [hcontent'] at houter
      exact (hsolid.part houter).irrefl (TransGen.tail' hupper hback)
  have hroot {part : Slot} (hpart : memory.Part whole part) {other : Slot} :
      ¬o.Doubles memory part other := by
    rintro ⟨⟨x, hx⟩, -⟩
    rcases h.part_owner hpart with ⟨position, howner⟩ | ⟨id, position, -, howner⟩ <;>
      cases howner.symm.trans hx
  rcases h.meet hinside hinside' with hmeet | hmeet | hmeet | hmeet
  · exact hcycle hpart' hpart hne hmeet
  · exact hcycle hpart hpart' (Ne.symm hne) hmeet
  · exact hroot hpart hmeet
  · exact hroot hpart' hmeet

end Ownership

end BuildScript
