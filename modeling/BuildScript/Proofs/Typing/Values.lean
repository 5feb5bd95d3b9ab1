import Mathlib.Data.List.Forall2
import BuildScript.Eval.Expr

/-!
Values whose parts have the types they are said to have. An array has elements of exactly its type,
and none without a type; an object has the fields its class declares; a bound function has an object
to be bound to. Conversion gives exactly the type asked for, and no operator, literal or fresh
declaration makes anything else.
-/

namespace BuildScript

/-- Every array in the value has elements of exactly its element type, and none if that is void. -/
inductive Value.Homogeneous : Value → Prop
  | atom (atom : Atom) : Homogeneous (.atom atom)
  | array {element : DataType} {items : List Value} (htype : ∀ item ∈ items, item.type = element)
      (hvoid : element = .void → items = []) (hitems : ∀ item ∈ items, item.Homogeneous) :
      Homogeneous (.array element items)
  | list {items : List Value} (hitems : ∀ item ∈ items, item.Homogeneous) :
      Homogeneous (.list items)
  | object {className : String} {fields : List (String × Value)}
      {methods : List (String × Callable)} (hfields : ∀ field ∈ fields, field.2.Homogeneous) :
      Homogeneous (.object className fields methods)

namespace ClassTable

/-- What a place declared with the first type may hold: exactly that type, but a `function` takes
whatever comes first, and an object of an unknown class is a placeholder. -/
inductive Admits (classes : ClassTable) : DataType → DataType → Prop
  | exact {type : DataType} (h : type ≠ .void) : Admits classes type type
  | function (found : DataType) : Admits classes .function found
  | placeholder {className : String} (h : classes.find? className = none) :
    Admits classes (.object className) (.object "")

/-- The names and types of the fields of an object. They are those of its class as it was when the
object was first made, without the fields that have no start. -/
inductive Describes (classes : ClassTable) : String → List (String × DataType) → Prop
  | placeholder : Describes classes "" []
  | made {earlier : ClassTable} {className : String} {template : ClassTemplate}
      {declared : List Field} {fields : List (String × DataType)} (hearlier : earlier <+: classes)
      (hfind : earlier.find? className = some template)
      (hdeclared : declared.Sublist template.fields)
      (hfields : List.Forall₂
        (fun field found => found.1 = field.name ∧ earlier.Admits field.type found.2)
        declared fields) : Describes classes className fields

variable {classes later : ClassTable}

theorem Describes.mono (h : classes <+: later) {className : String}
    {fields : List (String × DataType)} (hdescribes : classes.Describes className fields) :
    later.Describes className fields := by
  cases hdescribes with
  | placeholder => exact .placeholder
  | made hearlier hfind hdeclared hfields =>
    exact .made (hearlier.trans h) hfind hdeclared hfields

/-- What may be in a place without a value may be followed by anything. -/
theorem Admits.kept {declared found next : DataType} (h : classes.Admits declared found)
    (hkept : found ≠ .void → next = found) : classes.Admits declared next := by
  cases h with
  | exact hdeclared =>
    rw [hkept hdeclared]
    exact .exact hdeclared
  | function _ => exact .function _
  | placeholder hunknown =>
    rw [hkept (by decide)]
    exact .placeholder hunknown

/-- An object goes on having its fields while each of them that has a type keeps it. -/
theorem Describes.kept {className : String} {fields next : List (String × DataType)}
    (h : classes.Describes className fields)
    (hkept : List.Forall₂
      (fun found after => after.1 = found.1 ∧ (found.2 ≠ .void → after.2 = found.2)) fields next) :
    classes.Describes className next := by
  cases h with
  | placeholder =>
    cases hkept
    exact .placeholder
  | made hearlier hfind hdeclared hfields =>
    refine .made hearlier hfind hdeclared ?_
    clear hdeclared hfind
    induction hfields generalizing next with
    | nil =>
      cases hkept
      exact .nil
    | cons hfirst _ ih =>
      obtain _ | ⟨⟨hname, htype⟩, hrest⟩ := hkept
      exact .cons ⟨hname.trans hfirst.1, hfirst.2.kept htype⟩ (ih hrest)

end ClassTable

/-- What values may mention: the classes there are, and how many objects. -/
structure Realm where
  classes : ClassTable
  objects : Nat

/-- The second realm has everything of the first. -/
structure Realm.Extends (realm later : Realm) : Prop where
  classes : realm.classes <+: later.classes
  objects : realm.objects ≤ later.objects

/-- What a mapped result comes from. -/
theorem ok_of_map_ok {ε α β : Type} {f : α → β} {x : Except ε α} {b : β}
    (h : x.map f = .ok b) : ∃ a, x = .ok a ∧ f a = b := by
  cases x with
  | error e => cases h
  | ok a => exact ⟨a, rfl, Except.ok.inj h⟩

theorem DataType.convertsTo_iff {source target : DataType} :
    source.convertsTo target = true ↔ source = target ∨
      (source = .array .void ∧ ∃ element, target = .array element) ∨
        (source.isNumeric = true ∧ target.isNumeric = true) := by
  unfold convertsTo
  cases source <;> cases target <;> simp [isNumeric]

namespace Atom

/-- The object a function is bound to. -/
def receiver? : Atom → Option ObjectId
  | function _ receiver => receiver
  | _ => none

/-- Conversion keeps the object, and gives exactly the type asked for. -/
theorem convertNumber_type {atom result : Atom} {target : DataType}
    (hconverts : atom.type.convertsTo target = true)
    (h : atom.convertNumber target = .ok result) :
    result.type = target ∧ result.receiver? = atom.receiver? := by
  unfold convertNumber at h
  split at h
  case h_6 x =>
    obtain ⟨n, -, rfl⟩ := ok_of_map_ok h
    exact ⟨rfl, rfl⟩
  case h_7 =>
    cases h
    refine ⟨?_, rfl⟩
    cases atom <;> cases target <;> simp_all [type, DataType.convertsTo, DataType.isNumeric]
  all_goals
    cases h
    exact ⟨rfl, rfl⟩

end Atom

namespace Value

/-- A value whose parts have the types they are said to have, and which mentions nothing but what
there is. -/
inductive Typed (realm : Realm) : Value → Prop
  | atom {atom : Atom} (h : ∀ id, atom.receiver? = some id → id < realm.objects) :
    Typed realm (.atom atom)
  | array {element : DataType} {items : List Value} (htype : ∀ item ∈ items, item.type = element)
      (hvoid : element = .void → items = []) (hitems : ∀ item ∈ items, item.Typed realm) :
      Typed realm (.array element items)
  | list {items : List Value} (hitems : ∀ item ∈ items, item.Typed realm) :
      Typed realm (.list items)
  | object {className : String} {fields : List (String × Value)}
      {methods : List (String × Callable)} (hfields : ∀ field ∈ fields, field.2.Typed realm)
      (hdescribes :
        realm.classes.Describes className (fields.map fun field => (field.1, field.2.type))) :
      Typed realm (.object className fields methods)

/-- An atom that is not bound to an object. -/
def Plain (value : Value) : Prop := ∃ atom : Atom, value = .atom atom ∧ atom.receiver? = none

variable {realm later : Realm} {value other result : Value}

theorem Plain.typed (h : value.Plain) : value.Typed realm := by
  obtain ⟨atom, rfl, hnone⟩ := h
  refine .atom fun id hid => ?_
  rw [hnone] at hid
  cases hid

namespace Typed

theorem homogeneous (h : value.Typed realm) : value.Homogeneous := by
  induction h with
  | atom _ => exact .atom _
  | array htype hvoid _ ih => exact .array htype hvoid ih
  | list _ ih => exact .list ih
  | object _ _ ih => exact .object ih

theorem mono (hextends : realm.Extends later) (h : value.Typed realm) : value.Typed later := by
  induction h with
  | atom h => exact .atom fun id hid => Nat.lt_of_lt_of_le (h id hid) hextends.objects
  | array htype hvoid _ ih => exact .array htype hvoid ih
  | list _ ih => exact .list ih
  | object _ hdescribes ih => exact .object ih (hdescribes.mono hextends.classes)

theorem empty (element : DataType) : (Value.array element []).Typed realm :=
  .array (List.forall_mem_nil _) (fun _ => rfl) (List.forall_mem_nil _)

/-- What conversion gives has exactly the type asked for. -/
theorem convert (h : value.Typed realm) {target : DataType}
    (hconvert : value.convert target = .ok result) : result.Typed realm ∧ result.type = target := by
  unfold Value.convert at hconvert
  split at hconvert
  case isFalse => cases hconvert
  case isTrue hconverts =>
    cases h with
    | atom hreceiver =>
      obtain ⟨number, hnumber, rfl⟩ := ok_of_map_ok hconvert
      obtain ⟨htype, hsame⟩ := Atom.convertNumber_type hconverts hnumber
      refine ⟨.atom fun id hid => hreceiver id ?_, htype⟩
      rwa [← hsame]
    | @array element items htype hvoid hitems =>
      rcases DataType.convertsTo_iff.mp hconverts with rfl | ⟨hempty, other, rfl⟩ | ⟨hnumeric, -⟩
      · cases items with
        | nil =>
          cases hconvert
          exact ⟨.empty element, rfl⟩
        | cons item rest =>
          cases hconvert
          exact ⟨.array htype hvoid hitems, rfl⟩
      · obtain rfl := hvoid (DataType.array.inj hempty)
        cases hconvert
        exact ⟨.empty other, rfl⟩
      · cases hnumeric
    | list hitems =>
      rcases DataType.convertsTo_iff.mp hconverts with rfl | ⟨hempty, -⟩ | ⟨hnumeric, -⟩
      · cases hconvert
        exact ⟨.list hitems, rfl⟩
      · cases hempty
      · cases hnumeric
    | object hfields hdescribes =>
      rcases DataType.convertsTo_iff.mp hconverts with rfl | ⟨hempty, -⟩ | ⟨hnumeric, -⟩
      · cases hconvert
        exact ⟨.object hfields hdescribes, rfl⟩
      · cases hempty
      · cases hnumeric

/-- Elements of one type after elements of the same type. -/
theorem append {element : DataType} {items more : List Value}
    (h : (Value.array element items).Typed realm) (h' : (Value.array element more).Typed realm) :
    (Value.array element (items ++ more)).Typed realm := by
  cases h with
  | array htype hvoid hitems =>
    cases h' with
    | array htype' hvoid' hitems' =>
      refine .array (List.forall_mem_append.mpr ⟨htype, htype'⟩) ?_
        (List.forall_mem_append.mpr ⟨hitems, hitems'⟩)
      intro helement
      rw [hvoid helement, hvoid' helement]
      rfl

/-- A single element makes an array of its type. -/
theorem single (h : value.Typed realm) (hvalue : value.type ≠ .void) :
    (Value.array value.type [value]).Typed realm := by
  refine .array ?_ (fun hvoid => absurd hvoid hvalue) ?_
  · rintro _ (_ | ⟨_, ⟨⟩⟩)
    rfl
  · rintro _ (_ | ⟨_, ⟨⟩⟩)
    exact h

end Typed

end Value

namespace Operation

open Value (Plain Typed)

variable {realm : Realm} {left right value result : Value} {op : Operator}

theorem checked_plain {number : Option Int32} (h : checked number = .ok result) : result.Plain := by
  unfold checked at h
  split at h
  · cases h
    exact ⟨_, rfl, rfl⟩
  · cases h

theorem onIntegers_plain {a b : Int32} (h : onIntegers op a b = .ok result) : result.Plain := by
  unfold onIntegers at h
  split at h
  case h_4 | h_5 =>
    split at h
    · cases h
    · exact checked_plain h
  case h_6 =>
    split at h
    · exact checked_plain h
    · cases h
      exact ⟨_, rfl, rfl⟩
  case h_7 => cases h
  all_goals exact checked_plain h

theorem onSingles_plain {a b : Float32} (h : onSingles op a b = .ok result) : result.Plain := by
  unfold onSingles at h
  split at h
  case h_7 => cases h
  all_goals
    cases h
    exact ⟨_, rfl, rfl⟩

theorem arithmetic_plain (h : arithmetic op left right = .ok result) : result.Plain := by
  unfold arithmetic at h
  split at h
  · exact onIntegers_plain h
  · exact onSingles_plain h
  · cases h

theorem ordering_plain (h : ordering op left right = .ok result) : result.Plain := by
  unfold ordering at h
  split at h
  · cases h
    exact ⟨_, rfl, rfl⟩
  · split at h
    · cases h
      exact ⟨_, rfl, rfl⟩
    · cases h

theorem equality_plain (h : equality op left right = .ok result) : result.Plain := by
  unfold equality at h
  split at h
  · cases h
    exact ⟨_, rfl, rfl⟩
  · cases h

theorem bitwise_plain (h : bitwise op left right = .ok result) : result.Plain := by
  unfold bitwise at h
  split at h
  · cases h
    exact ⟨_, rfl, rfl⟩
  · split at h
    · cases h
      exact ⟨_, rfl, rfl⟩
    · cases h

theorem logic_plain (h : logic op left right = .ok result) : result.Plain := by
  unfold logic at h
  cases hleft : left.asBool with
  | error e =>
    rw [hleft] at h
    cases h
  | ok a =>
    rw [hleft] at h
    cases hright : right.asBool with
    | error e =>
      rw [hright] at h
      cases h
    | ok b =>
      rw [hright] at h
      cases h
      exact ⟨_, rfl, rfl⟩

theorem joinText_plain (h : joinText left right = some result) : result.Plain := by
  unfold joinText at h
  split at h
  · cases h
    exact ⟨_, rfl, rfl⟩
  · split at h
    · cases h
      exact ⟨_, rfl, rfl⟩
    · cases h

theorem unary_plain (h : unary op value = .ok result) : result.Plain := by
  unfold unary at h
  split at h
  · exact checked_plain h
  · cases h
    exact ⟨_, rfl, rfl⟩
  · cases h
    exact ⟨_, rfl, rfl⟩
  · split at h
    · obtain ⟨b, -, rfl⟩ := ok_of_map_ok h
      exact ⟨_, rfl, rfl⟩
    · cases h
  · cases h

/-- Two arrays in a row make an array of the type that has elements, if one has. -/
theorem concatArrays_typed {s t : DataType} {xs ys : List Value}
    (hleft : (Value.array s xs).Typed realm)
    (hright : (Value.array t ys).Typed realm) (h : concatArrays s xs t ys = .ok result) :
    result.Typed realm := by
  unfold concatArrays at h
  split at h
  · rename_i hvoid
    cases h
    obtain rfl : xs = [] := by
      cases hleft with
      | array _ hempty _ => exact hempty (eq_of_beq hvoid)
    exact hright
  · split at h
    · rename_i heither
      cases h
      rcases (Bool.or_eq_true _ _).mp heither with hvoid | hsame
      · obtain rfl : ys = [] := by
          cases hright with
          | array _ hempty _ => exact hempty (eq_of_beq hvoid)
        rwa [List.append_nil]
      · obtain rfl := eq_of_beq hsame
        exact hleft.append hright
    · cases h

/-- What converts to the type of an array becomes an element of exactly that type. -/
theorem append?_typed {element : DataType} {items : List Value} {item : Value}
    (hleft : (Value.array element items).Typed realm) (hright : item.Typed realm)
    (h : append? element items item = some (.ok result)) : result.Typed realm := by
  unfold append? at h
  split at h
  · rename_i hcondition
    have helement : element ≠ .void := by
      intro hvoid
      rw [hvoid] at hcondition
      cases hcondition
    obtain ⟨converted, hconvert, rfl⟩ := ok_of_map_ok (Option.some.inj h)
    obtain ⟨htyped, rfl⟩ := hright.convert hconvert
    exact hleft.append (htyped.single helement)
  · cases h

theorem addToContainer_typed (hleft : left.Typed realm) (hright : right.Typed realm)
    (hvalue : right.type ≠ .void) (h : addToContainer left right = .ok result) :
    result.Typed realm := by
  unfold addToContainer at h
  split at h
  · rename_i xs
    cases hleft with
    | list hitems =>
      split at h
      · cases h
        cases hright with
        | list hmore => exact .list (List.forall_mem_append.mpr ⟨hitems, hmore⟩)
      · cases h
        refine .list (List.forall_mem_append.mpr ⟨hitems, ?_⟩)
        rintro _ (_ | ⟨_, ⟨⟩⟩)
        exact hright
  · split at h
    · rename_i happend
      subst h
      exact append?_typed hleft hright happend
    · split at h
      · exact concatArrays_typed hleft hright h
      · split at h
        · cases h
          exact hright.single hvalue
        · cases h
  · cases h

/-- Every operator makes values whose parts have the types they are said to have, from two such
values of which the second one is some value. -/
theorem binary_typed (hleft : left.Typed realm) (hright : right.Typed realm)
    (hvalue : right.type ≠ .void) (h : binary op left right = .ok result) : result.Typed realm := by
  unfold binary at h
  split at h
  · unfold add at h
    split at h
    · rename_i hjoin
      cases h
      exact (joinText_plain hjoin).typed
    · split at h
      · exact addToContainer_typed hleft hright hvalue h
      · exact addToContainer_typed hleft hright hvalue h
      · exact (arithmetic_plain h).typed
  case h_7 | h_8 | h_9 | h_10 => exact (ordering_plain h).typed
  case h_11 | h_12 => exact (equality_plain h).typed
  case h_13 | h_14 | h_15 => exact (bitwise_plain h).typed
  case h_16 | h_17 => exact (logic_plain h).typed
  case h_18 => cases h
  all_goals exact (arithmetic_plain h).typed

end Operation

/-- The elements of an array literal have the type of the first. -/
theorem Eval.arrayOf_typed {realm : Realm} {values : List Value} {result : Value}
    (hvalues : ∀ value ∈ values, value.Typed realm ∧ value.type ≠ .void)
    (h : Eval.arrayOf values = .ok result) : result.Typed realm := by
  unfold Eval.arrayOf at h
  dsimp only at h
  split at h
  · cases h
  · rename_i hnone
    cases h
    have htype (value : Value) (hmem : value ∈ values) :
        value.type = (values.head?.map (·.type)).getD .void := by
      simpa using List.find?_eq_none.mp hnone value hmem
    refine .array htype ?_ fun value hmem => (hvalues value hmem).1
    intro hvoid
    cases values with
    | nil => rfl
    | cons value rest => exact absurd hvoid (hvalues value List.mem_cons_self).2

namespace ClassTable

open Value (Typed)

variable {classes : ClassTable} {start : List String → DataType → Option Value × List EvalError}

theorem find?_name {name : String} {template : ClassTemplate}
    (h : classes.find? name = some template) :
    template.name = name := by
  have hsame := List.find?_some h
  exact eq_of_beq hsame

/-- The fields that have a start are some of the declared ones, in order. -/
theorem fields_described {pending : List String} (declared : List Field)
    (hstart : ∀ type value faults, start pending type = (some value, faults) →
      (∀ objects, value.Typed ⟨classes, objects⟩) ∧ classes.Admits type value.type) :
    let values := (declared.map fun field => (field, start pending field.type)).filterMap
      fun (field, value, _) => value.map (field.name, ·)
    (∀ objects, ∀ field ∈ values, field.2.Typed ⟨classes, objects⟩) ∧
      ∃ kept : List Field, kept.Sublist declared ∧ List.Forall₂
        (fun field found => found.1 = field.name ∧ classes.Admits field.type found.2)
        kept (values.map fun field => (field.1, field.2.type)) := by
  induction declared with
  | nil => exact ⟨fun _ => List.forall_mem_nil _, [], .refl _, .nil⟩
  | cons field rest ih =>
    obtain ⟨htyped, kept, hsublist, hmatch⟩ := ih
    cases hfield : start pending field.type with
    | mk value faults =>
      cases value with
      | none =>
        simp only [List.map_cons, hfield, List.filterMap_cons, Option.map_none]
        exact ⟨htyped, kept, hsublist.cons _, hmatch⟩
      | some value =>
        obtain ⟨hvalue, hadmits⟩ := hstart field.type value faults hfield
        simp only [List.map_cons, hfield, List.filterMap_cons, Option.map_some]
        refine ⟨fun objects => List.forall_mem_cons.mpr ⟨hvalue objects, htyped objects⟩,
          field :: kept, hsublist.cons_cons _, .cons ⟨rfl, hadmits⟩ hmatch⟩

/-- A fresh object has the fields of its class, or is a placeholder if there is none. -/
theorem expand_typed {pending : List String} {name : String} {value : Value}
    {faults : List EvalError}
    (hstart : ∀ pending type value faults, start pending type = (some value, faults) →
      (∀ objects, value.Typed ⟨classes, objects⟩) ∧ classes.Admits type value.type)
    (h : expand start classes pending name = (value, faults)) :
    (∀ objects, value.Typed ⟨classes, objects⟩) ∧ classes.Admits (.object name) value.type := by
  unfold expand at h
  split at h
  · rename_i hunknown
    cases h
    exact ⟨fun _ => .object (List.forall_mem_nil _) .placeholder, .placeholder hunknown⟩
  · rename_i template hfind
    cases h
    obtain rfl := find?_name hfind
    obtain ⟨htyped, kept, hsublist, hmatch⟩ := fields_described template.fields
      (hstart (template.name :: pending))
    exact ⟨fun objects => .object (htyped objects) (.made List.prefix_rfl hfind hsublist hmatch),
      .exact (by simp)⟩

/-- The start of a type is something a place of that type may hold. -/
theorem startWithin_typed (fuel : Nat) (pending : List String) (type : DataType) (value : Value)
    (faults : List EvalError) (h : startWithin fuel classes pending type = (some value, faults)) :
    (∀ objects, value.Typed ⟨classes, objects⟩) ∧ classes.Admits type value.type := by
  have hplain {atom : Atom} (hnone : atom.receiver? = none) (objects : Nat) :
      (Value.atom atom).Typed ⟨classes, objects⟩ := Value.Plain.typed ⟨atom, rfl, hnone⟩
  induction fuel generalizing pending type value faults with
  | zero => cases h
  | succ fuel ih =>
    cases type with
    | bool | int | float | string | macroText =>
      cases h
      exact ⟨hplain rfl, .exact (by decide)⟩
    | list =>
      cases h
      exact ⟨fun _ => .list (List.forall_mem_nil _), .exact (by decide)⟩
    | function =>
      cases h
      exact ⟨hplain rfl, .function _⟩
    | array element =>
      simp only [startWithin] at h
      split at h
      · cases h
      · cases h
        exact ⟨fun _ => .empty element, .exact (by simp)⟩
    | object name =>
      simp only [startWithin] at h
      split at h
      · cases h
      · cases h
        exact expand_typed ih rfl
    | void | procedure | classTemplate | typeName => cases h

theorem start_typed {type : DataType} {value : Value} {faults : List EvalError}
    (h : classes.start type = (some value, faults)) :
    (∀ objects, value.Typed ⟨classes, objects⟩) ∧ classes.Admits type value.type :=
  startWithin_typed _ _ _ _ _ h

end ClassTable

end BuildScript
