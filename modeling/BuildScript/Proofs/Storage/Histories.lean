import BuildScript.Proofs.Run.Lasting
import BuildScript.Proofs.Storage.Preservation

/-!
How storage comes about: values are stored in new slots, and slots that exist are written. The value
of a slot changes only when the slot or something inside it is written, so it is settled by the last
such write.
-/

namespace BuildScript

namespace Memory

variable {a b c memory : Memory} {slot : Slot} {id : ObjectId}

/-- Storage after any number of values were stored and slots written. -/
inductive History (start : Memory) : Memory → Prop
  | none : History start start
  | stored {a b : Memory} (h : History start a) (hgrows : a.Grows b) : History start b
  | written {a : Memory} (h : History start a) (target : Slot) (value : Value) :
    History start (a.write target value)

/-- A history in which neither the slot nor anything inside it is written. -/
inductive Spares (slot : Slot) (start : Memory) : Memory → Prop
  | none : Spares slot start start
  | stored {a b : Memory} (h : Spares slot start a) (hgrows : a.Grows b) : Spares slot start b
  | written {a : Memory} (h : Spares slot start a) {target : Slot}
    (houtside : ¬a.Inside slot target) (value : Value) :
    Spares slot start (a.write target value)

theorem History.trans (h : a.History b) (h' : b.History c) : a.History c := by
  induction h' with
  | none => exact h
  | stored _ hgrows ih => exact ih.stored hgrows
  | written _ target value ih => exact ih.written target value

/-- Storing a value makes objects that did not exist before. -/
theorem place_object {value : Value} (h : (memory.place value).1 = .object id) :
    memory.objects.size ≤ id := by
  cases value with
  | object className fields methods =>
    cases h
    exact (placeFields_sprouts memory fields).1.objects
  | _ => cases h

theorem History.sizes (h : a.History b) :
    a.cells.size ≤ b.cells.size ∧ a.objects.size ≤ b.objects.size := by
  induction h with
  | none => exact ⟨Nat.le_refl _, Nat.le_refl _⟩
  | stored _ hgrows ih => exact ⟨Nat.le_trans ih.1 hgrows.cells, Nat.le_trans ih.2 hgrows.objects⟩
  | @written b _ target value ih =>
    exact ⟨Nat.le_trans ih.1 (write_cells b target value),
      Nat.le_trans ih.2 (place_planted b value).objects⟩

/-- An object that lies in a slot in the end has lain there ever since both exist. -/
theorem History.content_object (h : a.History b) (hslot : slot.index < a.cells.size)
    (hid : id < a.objects.size) (hcontent : b.content slot = .object id) :
    a.content slot = .object id := by
  induction h with
  | none => exact hcontent
  | stored h hgrows ih =>
    have hbound := Nat.lt_of_lt_of_le hslot h.sizes.1
    exact ih ((hgrows.content slot hbound).symm.trans hcontent)
  | @written b h target value ih =>
    have hbound := Nat.lt_of_lt_of_le hslot h.sizes.1
    by_cases htarget : slot = target
    · subst htarget
      rw [write_eq, content_put_self
        (Nat.lt_of_lt_of_le hbound (place_planted b value).cells)] at hcontent
      have hmade : b.objects.size ≤ id := place_object hcontent
      exact absurd (Nat.lt_of_lt_of_le hid h.sizes.2) (Nat.not_lt.mpr hmade)
    · rw [content_write_of_ne hbound htarget] at hcontent
      exact ih hcontent

/-- What stands goes on standing. -/
theorem History.persists (h : a.History b) : a.Persists b := by
  induction h with
  | none => exact fun _ hstands => hstands
  | stored _ hgrows ih => exact fun anchor hstands => hgrows.persists anchor (ih anchor hstands)
  | written _ target value ih =>
    exact fun anchor hstands => write_persists _ target value anchor (ih anchor hstands)

theorem Spares.history (h : Spares slot a b) : a.History b := by
  induction h with
  | none => exact .none
  | stored _ hgrows ih => exact ih.stored hgrows
  | written _ _ value ih => exact ih.written _ value

theorem Solid.alike_grows (h : a.Solid slot) (hgrows : a.Grows b) : Alike a b slot := by
  intro other hinside
  have hother := h.inside hinside
  exact ⟨hgrows.content other hother.bound, fun id hid => hgrows.instanceOf id (hother.object hid)⟩

theorem Solid.load_grows (h : a.Solid slot) (hgrows : a.Grows b) : b.load slot = a.load slot :=
  h.load_eq hgrows.cells (h.alike_grows hgrows)

/-- A slot that is spared keeps its value. -/
theorem Spares.load (h : Spares slot a b) (hsolid : a.Solid slot) : b.load slot = a.load slot := by
  induction h with
  | none => rfl
  | stored h hgrows ih =>
    exact ((h.history.persists.solid hsolid).load_grows hgrows).trans ih
  | written h houtside value ih =>
    exact ((h.history.persists.solid hsolid).load_write houtside value).trans ih

/-- In any history a slot is spared altogether, or it is spared since some last write to it or to
something inside it. -/
theorem History.last (h : a.History b) (slot : Slot) :
    Spares slot a b ∨ ∃ c target value, a.History c ∧ c.Inside slot target ∧
      Spares slot (c.write target value) b := by
  induction h with
  | none => exact .inl .none
  | stored _ hgrows ih =>
    rcases ih with hspared | ⟨c, target, value, hearlier, hinside, hspared⟩
    · exact .inl (hspared.stored hgrows)
    · exact .inr ⟨c, target, value, hearlier, hinside, hspared.stored hgrows⟩
  | @written b h target value ih =>
    by_cases hinside : b.Inside slot target
    · exact .inr ⟨b, target, value, h, hinside, .none⟩
    · rcases ih with hspared | ⟨c, other, earlier, hearlier, hinside', hspared⟩
      · exact .inl (hspared.written hinside value)
      · exact .inr ⟨c, other, earlier, hearlier, hinside', hspared.written hinside value⟩

end Memory

/-- Storage changed by storing values and writing slots. -/
def Machine.Stores (m m' : Machine) : Prop := m.env.memory.History m'.env.memory

namespace Machine.Stores

theorem lasting : Machine.Lasting Stores where
  refl _ := .none
  trans := Memory.History.trans
  emit _ _ _ := .none
  reportMessage _ _ := .none
  grown _ hgrows := Memory.History.none.stored hgrows
  written _ slot value := Memory.History.none.written slot value

/-- However deep a run nests, it changes storage in no other way if the embedding program does not. -/
theorem context {host : Host} (hhost : host.Keeps Stores) (budget : Nat) (held : List Anchor) :
    (Session.context host budget held).Lasts Stores :=
  Session.context_lasts lasting (fun _ _ => .none) hhost budget held

end Machine.Stores

end BuildScript
