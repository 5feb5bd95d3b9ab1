import Mathlib.Data.List.Nodup
import Mathlib.Data.List.Perm.Subperm
import Mathlib.Logic.Relation
import BuildScript.Memory

/-!
Storage as a graph: a slot leads to the slots of its elements or of the fields of its object. A slot
is solid if everything inside it exists, so that what is inside is a finite tree; the value of a
solid slot depends on nothing but this tree.
-/

namespace BuildScript.Memory

open Relation (ReflTransGen TransGen)

variable {a b c memory : Memory} {slot target : Slot}

/-- The slots right inside a slot that holds the content. -/
def parts (memory : Memory) : Content → List Slot
  | .atom _ => []
  | .array _ items | .list items => items
  | .object id => (memory.instanceOf id).fields.map (·.2)

def Part (memory : Memory) (whole part : Slot) : Prop := part ∈ memory.parts (memory.content whole)

/-- The second slot is the first or lies somewhere inside it. -/
def Inside (memory : Memory) : Slot → Slot → Prop := ReflTransGen memory.Part

/-- The slot exists, and so does everything inside it. -/
inductive Solid (memory : Memory) : Slot → Prop
  | mk {slot : Slot} (hslot : slot.index < memory.cells.size)
      (hobject : ∀ id, memory.content slot = .object id → id < memory.objects.size)
      (hparts : ∀ part, memory.Part slot part → Solid memory part) : Solid memory slot

namespace Solid

theorem bound (h : memory.Solid slot) : slot.index < memory.cells.size := by
  cases h with
  | mk hslot _ _ => exact hslot

theorem object (h : memory.Solid slot) {id : ObjectId} (hid : memory.content slot = .object id) :
    id < memory.objects.size := by
  cases h with
  | mk _ hobject _ => exact hobject id hid

theorem part (h : memory.Solid slot) {part : Slot} (hpart : memory.Part slot part) :
    memory.Solid part := by
  cases h with
  | mk _ _ hparts => exact hparts part hpart

theorem inside (h : memory.Solid slot) (hinside : memory.Inside slot target) :
    memory.Solid target := by
  induction hinside with
  | refl => exact h
  | tail _ hpart ih => exact ih.part hpart

/-- Solid slots stay solid if what they lead to stays or is solid itself. -/
theorem transfer (h : a.Solid slot)
    (hstep : ∀ slot, a.Solid slot → slot.index < b.cells.size ∧
      (∀ id, b.content slot = .object id → id < b.objects.size) ∧
        ∀ part, b.Part slot part → a.Part slot part ∨ b.Solid part) : b.Solid slot := by
  induction h with
  | mk hslot hobject hparts ih =>
    obtain ⟨hbound, hid, hpart⟩ := hstep _ (.mk hslot hobject hparts)
    apply Solid.mk hbound hid
    intro part hmem
    rcases hpart part hmem with hold | hsolid
    · exact ih part hold
    · exact hsolid

/-- No slot is inside its own parts. -/
theorem irrefl (h : memory.Solid slot) : ¬TransGen memory.Part slot slot := by
  induction h with
  | mk _ _ _ ih =>
    intro hcycle
    obtain ⟨part, hpart, hback⟩ := TransGen.head'_iff.mp hcycle
    exact ih part hpart (TransGen.tail' hback hpart)

end Solid

/-- What a slot with this content would load, each part down to the given nesting. -/
def valueWithin (depth : Nat) (memory : Memory) : Content → Value
  | .atom a => .atom a
  | .array element items => .array element (items.map (loadWithin depth memory))
  | .list items => .list (items.map (loadWithin depth memory))
  | .object id =>
    let object := memory.instanceOf id
    .object object.className
      (object.fields.map fun (name, field) => (name, loadWithin depth memory field))
      object.methods

theorem loadWithin_succ (depth : Nat) (memory : Memory) (slot : Slot) :
    loadWithin (depth + 1) memory slot = memory.valueWithin depth (memory.content slot) := rfl

/-- The value of a content depends on its object and on the values of its parts. -/
theorem valueWithin_congr {content : Content} {depth depth' : Nat}
    (hobject : ∀ id, content = .object id → b.instanceOf id = a.instanceOf id)
    (hparts : ∀ part ∈ a.parts content, loadWithin depth' b part = loadWithin depth a part) :
    b.valueWithin depth' content = a.valueWithin depth content := by
  cases content with
  | atom atom => rfl
  | array element items =>
    exact congrArg (Value.array element) (List.map_congr_left hparts)
  | list items => exact congrArg Value.list (List.map_congr_left hparts)
  | object id =>
    simp only [valueWithin]
    rw [hobject id rfl]
    congr 1
    apply List.map_congr_left
    intro field hmem
    have hpart := hparts field.2 (List.mem_map_of_mem hmem)
    exact congrArg (Prod.mk field.1) hpart

theorem length_le_cells {slots : List Slot} (hnodup : slots.Nodup)
    (hbound : ∀ slot ∈ slots, slot.index < memory.cells.size) :
    slots.length ≤ memory.cells.size := by
  have hinjective : Function.Injective Slot.index := by
    rintro ⟨index⟩ ⟨index'⟩ heq
    exact congrArg Slot.mk heq
  have hindices : (slots.map Slot.index).Nodup := List.Nodup.map hinjective hnodup
  have hsubset : slots.map Slot.index ⊆ List.range memory.cells.size := by
    intro index hmem
    obtain ⟨slot, hslot, rfl⟩ := List.mem_map.mp hmem
    exact List.mem_range.mpr (hbound slot hslot)
  have hlength := (List.subperm_of_subset hindices hsubset).length_le
  simpa using hlength

/-- Different slots that exist and have the slot somewhere inside them. -/
structure Chain (memory : Memory) (above : List Slot) (slot : Slot) : Prop where
  nodup : above.Nodup
  bound : ∀ upper ∈ above, upper.index < memory.cells.size
  leads : ∀ upper ∈ above, TransGen memory.Part upper slot

namespace Chain

variable {above : List Slot}

theorem longer (h : memory.Chain above slot) (hsolid : memory.Solid slot) :
    (slot :: above).Nodup ∧ ∀ upper ∈ slot :: above, upper.index < memory.cells.size :=
  ⟨List.nodup_cons.mpr ⟨fun hmem => hsolid.irrefl (h.leads slot hmem), h.nodup⟩,
    List.forall_mem_cons.mpr ⟨hsolid.bound, h.bound⟩⟩

theorem nil (memory : Memory) (slot : Slot) : memory.Chain [] slot :=
  ⟨.nil, List.forall_mem_nil _, List.forall_mem_nil _⟩

/-- There are more slots than such a chain has. -/
theorem room (h : memory.Chain above slot) (hsolid : memory.Solid slot) :
    above.length < memory.cells.size :=
  length_le_cells (h.longer hsolid).1 (h.longer hsolid).2

theorem part (h : memory.Chain above slot) (hsolid : memory.Solid slot) {part : Slot}
    (hpart : memory.Part slot part) : memory.Chain (slot :: above) part where
  nodup := (h.longer hsolid).1
  bound := (h.longer hsolid).2
  leads := List.forall_mem_cons.mpr
    ⟨.single hpart, fun upper hmem => (h.leads upper hmem).tail hpart⟩

/-- The longer the chain of slots on the way down, the less depth is needed below. -/
theorem loadWithin_add (h : memory.Chain above slot) (hsolid : memory.Solid slot) (more : Nat)
    {depth : Nat} (hdepth : memory.cells.size ≤ depth + above.length) :
    loadWithin (depth + more) memory slot = loadWithin depth memory slot := by
  have hroom := h.room hsolid
  induction depth generalizing slot above with
  | zero => omega
  | succ depth ih =>
    rw [Nat.add_right_comm, loadWithin_succ, loadWithin_succ]
    apply valueWithin_congr (fun _ _ => rfl)
    intro part hpart
    have hlonger := h.part hsolid hpart
    refine ih hlonger (hsolid.part hpart) ?_ (hlonger.room (hsolid.part hpart))
    rw [List.length_cons]
    omega

end Chain

/-- Nothing solid nests deeper than there are slots, so reading further down changes nothing. -/
theorem Solid.loadWithin_more (h : memory.Solid slot) (more : Nat) :
    loadWithin (memory.cells.size + more) memory slot =
      loadWithin memory.cells.size memory slot :=
  (Chain.nil memory slot).loadWithin_add h more (Nat.le_refl _)

/-- The same storage inside a slot, in both memories. -/
def Alike (a b : Memory) (slot : Slot) : Prop :=
  ∀ target, a.Inside slot target → b.content target = a.content target ∧
    ∀ id, a.content target = .object id → b.instanceOf id = a.instanceOf id

theorem Alike.part (h : Alike a b slot) {part : Slot} (hpart : a.Part slot part) : Alike a b part :=
  fun target hinside => h target (.head hpart hinside)

theorem Alike.loadWithin_eq (h : Alike a b slot) (depth : Nat) :
    loadWithin depth b slot = loadWithin depth a slot := by
  induction depth generalizing slot with
  | zero => rfl
  | succ depth ih =>
    obtain ⟨hcontent, hobject⟩ := h slot .refl
    rw [loadWithin_succ, loadWithin_succ, hcontent]
    apply valueWithin_congr hobject
    intro part hpart
    exact ih (h.part hpart)

/-- A solid slot keeps its value as long as the storage inside it stays the same, whatever else is
stored. -/
theorem Solid.load_eq (h : a.Solid slot) (hcells : a.cells.size ≤ b.cells.size)
    (halike : Alike a b slot) : b.load slot = a.load slot := by
  have hdepth : b.cells.size + 1 = a.cells.size + (b.cells.size + 1 - a.cells.size) := by omega
  unfold load
  rw [halike.loadWithin_eq, hdepth, h.loadWithin_more, h.loadWithin_more]

end BuildScript.Memory
