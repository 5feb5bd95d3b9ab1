import BuildScript.Proofs.Storage.Compounding
import BuildScript.Proofs.Storage.Binding

/-!
Adding arrays of one element type puts their elements in a row, so it is associative, and the array
without an element type is neutral on the left. On the right it is so for element types that are no
array types: an array of arrays takes it for an element and grows by an empty array. A sum is a
value of its own that takes no storage from its operands.
-/

namespace BuildScript

namespace DataType

theorem ne_array_self (type : DataType) : type ≠ .array type := by
  intro h
  have hsize := congrArg sizeOf h
  simp at hsize

/-- Arrays convert to arrays only, and to another element type only if they have none. -/
theorem array_convertsTo_iff {element target : DataType} :
    (array element).convertsTo target = true ↔
      target = .array element ∨ (element = .void ∧ ∃ other, target = .array other) := by
  cases target with
  | array other => simp [convertsTo, @eq_comm _ element other]
  | _ => simp [convertsTo, isNumeric]

end DataType

namespace Memory

variable {a b memory : Memory} {slot target part : Slot}

/-- Where storage stays the same, it holds the same slots. -/
theorem Alike.inside (h : Alike a b slot) (hinside : b.Inside slot target) :
    a.Inside slot target := by
  induction hinside with
  | refl => exact .refl
  | @tail whole part _ hpart ih =>
    obtain ⟨hcontent, hobject⟩ := h whole ih
    unfold Part at hpart
    rw [hcontent, parts_congr hobject] at hpart
    exact ih.tail hpart

/-- Below a slot that was written, everything is new. -/
theorem inside_write (htarget : target.index < memory.cells.size) {value : Value}
    (hinside : (memory.write target value).Inside target part) :
    part = target ∨ memory.cells.size ≤ part.index := by
  have hplanted := place_planted memory value
  induction hinside with
  | refl => exact .inl rfl
  | @tail whole part _ hpart ih =>
    right
    unfold Part at hpart
    rw [write_eq, parts_put] at hpart
    by_cases hwhole : whole = target
    · rw [hwhole, content_put_self (Nat.lt_of_lt_of_le htarget hplanted.cells)] at hpart
      exact (hplanted.parts part hpart).1
    · rw [content_put_of_ne hwhole] at hpart
      exact hplanted.apart whole (ih.resolve_left hwhole) part hpart

/-- The slot got the value and shares no storage with the other one, which kept its own. -/
structure StoredApart (before after : Memory) (slot : Slot) (value : Value) (other : Slot) :
    Prop where
  stored : after.load slot = value
  kept : after.load other = before.load other
  apart : ∀ part, after.Inside slot part → ¬after.Inside other part

theorem Solid.alloc_apart {other : Slot} (h : memory.Solid other) (value : Value) :
    memory.StoredApart (memory.alloc value).2 (memory.alloc value).1 value other where
  stored := load_alloc (.refl _)
  kept := h.load_grows (alloc_sprouts memory value).toGrows
  apart part hslot hother := by
    have hnew := (alloc_sprouts memory value).inside (alloc_slot memory value).1 hslot
    have halike := h.alike_grows (alloc_sprouts memory value).toGrows
    have hold := (h.inside (halike.inside hother)).bound
    omega

theorem Solid.write_apart {other : Slot} (h : memory.Solid other)
    (htarget : target.index < memory.cells.size) (houtside : ¬memory.Inside other target)
    (value : Value) : memory.StoredApart (memory.write target value) target value other where
  stored := load_write_self htarget value
  kept := h.load_write houtside value
  apart part hslot hother := by
    have hinside := (h.alike_write houtside value).inside hother
    rcases inside_write htarget hslot with rfl | hnew
    · exact houtside hinside
    · have hold := (h.inside hinside).bound
      omega

end Memory

namespace Operation

variable (element : DataType) (xs ys zs : List Value)

theorem append?_same : append? element xs (.array element ys) = none := by
  have hkept : (element != .void && (DataType.array element).convertsTo element) = false := by
    by_contra h
    simp only [Bool.not_eq_false, Bool.and_eq_true, bne_iff_ne,
      DataType.array_convertsTo_iff] at h
    obtain ⟨hvoid, hself | ⟨hempty, -⟩⟩ := h
    · exact element.ne_array_self hself
    · exact hvoid hempty
  unfold append?
  rw [Value.type, hkept]
  rfl

theorem binary_add_array (other : DataType) :
    binary .add (.array element xs) (.array other ys) =
      (append? element xs (.array other ys)).getD (concatArrays element xs other ys) := by
  have hcontainer : binary .add (.array element xs) (.array other ys) =
      addToContainer (.array element xs) (.array other ys) := rfl
  rw [hcontainer]
  unfold addToContainer
  simp only
  cases append? element xs (.array other ys) <;> rfl

/-- Arrays of one type are put in a row. -/
theorem add_arrays :
    binary .add (.array element xs) (.array element ys) = .ok (.array element (xs ++ ys)) := by
  rw [binary_add_array, append?_same]
  by_cases hvoid : element = .void
  · simp [concatArrays, hvoid]
  · simp [concatArrays, hvoid]

theorem empty_add :
    binary .add (.array .void []) (.array element xs) = .ok (.array element xs) := by
  rw [binary_add_array]
  rfl

theorem add_empty (h : ∀ inner, element ≠ .array inner) :
    binary .add (.array element xs) (.array .void []) = .ok (.array element xs) := by
  have hkept : (DataType.array .void).convertsTo element = false := by
    rw [Bool.eq_false_iff, Ne, DataType.array_convertsTo_iff]
    rintro (hself | ⟨-, other, hother⟩)
    · exact h _ hself
    · exact h other hother
  have hnone : append? element xs (.array .void []) = none := by
    unfold append?
    rw [Value.type, hkept, Bool.and_false]
    rfl
  rw [binary_add_array, hnone]
  by_cases hvoid : element = .void
  · simp [concatArrays, hvoid]
  · simp [concatArrays, hvoid]

/-- An array of arrays takes the array without an element type as one more element. -/
theorem add_empty_nested (inner : DataType) :
    binary .add (.array (.array inner) xs) (.array .void []) =
      .ok (.array (.array inner) (xs ++ [.array inner []])) := by
  have hconverts : (DataType.array .void).convertsTo (.array inner) = true :=
    DataType.array_convertsTo_iff.mpr (.inr ⟨rfl, inner, rfl⟩)
  have hsome : append? (.array inner) xs (.array .void []) =
      some (.ok (.array (.array inner) (xs ++ [.array inner []]))) := by
    unfold append? Value.convert
    rw [Value.type, hconverts]
    rfl
  rw [binary_add_array, hsome]
  rfl

/-- The laws of adding arrays of one element type. -/
structure Concatenates (element : DataType) (xs ys zs : List Value) : Prop where
  sum : binary .add (.array element xs) (.array element ys) = .ok (.array element (xs ++ ys))
  size : (Value.array element (xs ++ ys)).size? = some (xs.length + ys.length)
  associative : ∃ total,
    (binary .add (.array element xs) (.array element ys) >>=
      fun sum => binary .add sum (.array element zs)) = .ok total ∧
    (binary .add (.array element ys) (.array element zs) >>=
      fun sum => binary .add (.array element xs) sum) = .ok total
  leftNeutral : binary .add (.array .void []) (.array element xs) = .ok (.array element xs)
  rightNeutral : binary .add (.array element xs) (.array .void []) = .ok (.array element xs) ↔
    ∀ inner, element ≠ .array inner
  /-- An array of arrays takes the array without an element type for an element. -/
  nested : ∀ inner, element = .array inner →
    binary .add (.array element xs) (.array .void []) =
      .ok (.array element (xs ++ [.array inner []]))
  /-- Adding does nothing beyond what its operands do. -/
  evaluated : ∀ left right ctx m between after,
    Eval.valueBy (Eval.evalExpr left) ctx m = (.ok (.array element xs), between) →
    Eval.valueBy (Eval.evalExpr right) ctx between = (.ok (.array element ys), after) →
    Eval.evalExpr (.binary .add left right) ctx m =
      (.ok (.ofValue (.array element (xs ++ ys))), after)
  /-- Stored in a slot of its own, a sum has nothing in common with any other slot. -/
  declared : ∀ (memory : Memory) (other : Slot), memory.Solid other →
    memory.StoredApart (memory.alloc (.array element (xs ++ ys))).2
      (memory.alloc (.array element (xs ++ ys))).1 (.array element (xs ++ ys)) other
  /-- Nor has it if it is stored in a slot that is not inside the other one. -/
  assigned : ∀ (memory : Memory) (other target : Slot), memory.Solid other →
    target.index < memory.cells.size → ¬memory.Inside other target →
      memory.StoredApart (memory.write target (.array element (xs ++ ys))) target
        (.array element (xs ++ ys)) other

/-- Arrays of one element type are added in a row: the sum is associative, has the sizes of both
together, and has the array without an element type as neutral element, on the right unless the
elements are arrays themselves. Adding changes nothing, and a sum in storage shares nothing with
what there was. -/
theorem arrays_concatenate : Concatenates element xs ys zs where
  sum := add_arrays element xs ys
  size := by simp [Value.size?]
  associative := by
    refine ⟨.array element (xs ++ ys ++ zs), ?_, ?_⟩
    · rw [add_arrays]
      exact add_arrays element (xs ++ ys) zs
    · rw [add_arrays, List.append_assoc]
      exact add_arrays element xs (ys ++ zs)
  leftNeutral := empty_add element xs
  rightNeutral := by
    constructor
    · rintro hneutral inner rfl
      rw [add_empty_nested] at hneutral
      simp at hneutral
    · exact add_empty element xs
  nested := by
    rintro inner rfl
    exact add_empty_nested xs inner
  evaluated left right ctx m between after hleft hright := by
    rw [@Eval.evalExpr_combined .addAssign .add rfl left right]
    unfold Eval.binaryWith
    rw [Eval.andThen_apply_ok hleft, Eval.andThen_apply_ok hright, add_arrays]
    rfl
  declared memory other hsolid := hsolid.alloc_apart _
  assigned memory other target hsolid htarget houtside := hsolid.write_apart htarget houtside _

/-- `[1]` in storage, and `[2]` added to it: the sum is stored next to it. -/
theorem numbers_concatenate :
    binary .add (.array .int [.int 1]) (.array .int [.int 2]) =
      .ok (.array .int [.int 1, .int 2]) ∧
    (Memory.empty.alloc (.array .int [.int 1])).2.StoredApart
      ((Memory.empty.alloc (.array .int [.int 1])).2.alloc (.array .int [.int 1, .int 2])).2
      ((Memory.empty.alloc (.array .int [.int 1])).2.alloc (.array .int [.int 1, .int 2])).1
      (.array .int [.int 1, .int 2]) (Memory.empty.alloc (.array .int [.int 1])).1 := by
  have hsolid : (Memory.empty.alloc (.array .int [.int 1])).2.Solid
      (Memory.empty.alloc (.array .int [.int 1])).1 :=
    (Memory.alloc_sprouts _ _).solid _ (Memory.alloc_slot _ _).1 (Memory.alloc_slot _ _).2
  have hlaws : Concatenates .int [.int 1] [.int 2] [] := arrays_concatenate .int _ _ _
  exact ⟨hlaws.sum, hlaws.declared _ _ hsolid⟩

/-- An array of arrays does not stay the same when the array without an element type is added. -/
theorem nested_array_grows :
    ¬∀ (element : DataType) (xs : List Value),
      binary .add (.array element xs) (.array .void []) = .ok (.array element xs) := by
  intro hclaim
  have hneutral := hclaim (.array .int) [.array .int [.int 1]]
  rw [add_empty_nested] at hneutral
  simp at hneutral

end Operation

end BuildScript
