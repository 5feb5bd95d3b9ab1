import Mathlib.Data.List.Nodup
import Mathlib.Data.List.Perm.Subperm
import BuildScript.Proofs.Typing.Values

/-!
What a fresh object is made of. A field that names a class starts with an object of that class,
whose fields start in the same way, along the classes that are being expanded from the root on. No
class comes twice on such a path and all of them are in the table, so no path is longer than the
table and the fuel never runs out.
-/

namespace BuildScript

/-- The value a fresh variable of the type starts with, where the type names no class. -/
def DataType.zero? : DataType → Option Value
  | .bool => some (.bool false)
  | .int => some (.int 0)
  | .float => some (.float 0.0)
  | .string => some (.string "")
  | .macroText => some (.macroText "")
  | .list => some (.list [])
  | .function => some .nothing
  | .array element => if element = .void then none else some (.array element [])
  | .void | .procedure | .classTemplate | .typeName | .object _ => none

namespace ClassTable

mutual

/-- What a place of a type starts with below a path of classes that are being expanded, and what is
reported about it. -/
inductive Starts (classes : ClassTable) :
    List String → DataType → Option Value → List EvalError → Prop
  | zero {path type value} (hzero : type.zero? = some value) :
    Starts classes path type (some value) []
  | bare {path type} (hzero : type.zero? = none) (hclass : ∀ name, type ≠ .object name) :
    Starts classes path type none []
  | cyclic {path name} (hpath : name ∈ path) : Starts classes path (.object name) none []
  | unknown {path name} (hpath : name ∉ path) (hfind : classes.find? name = none) :
    Starts classes path (.object name) (some (.object "" [] [])) [.unknownClass name]
  | known {path name template entries faults} (hpath : name ∉ path)
    (hfind : classes.find? name = some template)
    (hfields : Fills classes (name :: path) name template.fields entries faults) :
    Starts classes path (.object name) (some (.object name entries template.methods)) faults

/-- What the fields of a class, the last one on the path, come to: the entries of the object, and
what is reported about the fields and about everything inside them. -/
inductive Fills (classes : ClassTable) :
    List String → String → List Field → List (String × Value) → List EvalError → Prop
  | nil {path owner} : Fills classes path owner [] [] []
  | kept {path owner rest entries faults faults'} {field : Field} {value : Value}
    (hstart : Starts classes path field.type (some value) faults)
    (hrest : Fills classes path owner rest entries faults') :
    Fills classes path owner (field :: rest) ((field.name, value) :: entries) (faults ++ faults')
  | omitted {path owner rest entries faults} {field : Field}
    (hstart : Starts classes path field.type none [])
    (hrest : Fills classes path owner rest entries faults) :
    Fills classes path owner (field :: rest) entries
      (.unsupportedFieldType owner field.name field.type :: faults)

end

variable {classes : ClassTable} {path : List String} {type : DataType} {value : Option Value}
  {faults : List EvalError}

/-- A place has no start exactly if its type has no zero value or names a class on the path. -/
theorem Starts.eq_none_iff (h : classes.Starts path type value faults) :
    value = none ↔ type.zero? = none ∧ ∀ name, type = .object name → name ∈ path := by
  cases h with
  | zero hzero => simp [hzero]
  | bare hzero hclass => simp [hzero, hclass]
  | cyclic hpath => simpa [DataType.zero?] using hpath
  | unknown hpath _ => simpa [DataType.zero?] using hpath
  | known hpath _ _ => simpa [DataType.zero?] using hpath

theorem Starts.faults_of_none (h : classes.Starts path type none faults) : faults = [] := by
  cases h with
  | bare _ _ => rfl
  | cyclic _ => rfl

mutual

/-- A type has one start below a path. -/
theorem Starts.unique {path : List String} {type : DataType} {value value' : Option Value}
    {faults faults' : List EvalError} : classes.Starts path type value faults →
    classes.Starts path type value' faults' → value = value' ∧ faults = faults'
  | .zero hzero, h => by
    cases h with
    | zero hzero' => exact ⟨hzero.symm.trans hzero', rfl⟩
    | bare hzero' _ => rw [hzero] at hzero'; cases hzero'
    | cyclic _ => cases hzero
    | unknown _ _ => cases hzero
    | known _ _ _ => cases hzero
  | .bare hzero hclass, h => by
    cases h with
    | zero hzero' => rw [hzero] at hzero'; cases hzero'
    | bare _ _ => exact ⟨rfl, rfl⟩
    | cyclic _ => exact absurd rfl (hclass _)
    | unknown _ _ => exact absurd rfl (hclass _)
    | known _ _ _ => exact absurd rfl (hclass _)
  | .cyclic hpath, h => by
    cases h with
    | zero hzero' => cases hzero'
    | bare _ hclass => exact absurd rfl (hclass _)
    | cyclic _ => exact ⟨rfl, rfl⟩
    | unknown hout _ => exact absurd hpath hout
    | known hout _ _ => exact absurd hpath hout
  | .unknown hout hfind, h => by
    cases h with
    | zero hzero' => cases hzero'
    | bare _ hclass => exact absurd rfl (hclass _)
    | cyclic hpath => exact absurd hpath hout
    | unknown _ _ => exact ⟨rfl, rfl⟩
    | known _ hfind' _ => rw [hfind] at hfind'; cases hfind'
  | .known hout hfind hfields, h => by
    cases h with
    | zero hzero' => cases hzero'
    | bare _ hclass => exact absurd rfl (hclass _)
    | cyclic hpath => exact absurd hpath hout
    | unknown _ hfind' => rw [hfind] at hfind'; cases hfind'
    | known _ hfind' hfields' =>
      obtain rfl := Option.some.inj (hfind.symm.trans hfind')
      obtain ⟨rfl, rfl⟩ := hfields.unique hfields'
      exact ⟨rfl, rfl⟩

theorem Fills.unique {path : List String} {owner : String} {fields : List Field}
    {entries entries' : List (String × Value)} {faults faults' : List EvalError} :
    classes.Fills path owner fields entries faults →
    classes.Fills path owner fields entries' faults' → entries = entries' ∧ faults = faults'
  | .nil, .nil => ⟨rfl, rfl⟩
  | .kept hstart hrest, h => by
    cases h with
    | kept hstart' hrest' =>
      obtain ⟨hvalue, rfl⟩ := hstart.unique hstart'
      obtain ⟨rfl, rfl⟩ := hrest.unique hrest'
      cases hvalue
      exact ⟨rfl, rfl⟩
    | omitted hstart' _ => cases (hstart.unique hstart').1
  | .omitted hstart hrest, h => by
    cases h with
    | kept hstart' _ => cases (hstart.unique hstart').1
    | omitted _ hrest' =>
      obtain ⟨rfl, rfl⟩ := hrest.unique hrest'
      exact ⟨rfl, rfl⟩

end

/-- The fields of a class come to what is collected over them. -/
theorem fills_collected {start : DataType → Option Value × List EvalError} (owner : String)
    (hstart : ∀ type, classes.Starts path type (start type).1 (start type).2)
    (fields : List Field) :
    classes.Fills path owner fields
      ((fields.map fun field => (field, start field.type)).filterMap
        fun (field, value, _) => value.map (field.name, ·))
      ((fields.map fun field => (field, start field.type)).flatMap fun (field, value, faults) =>
        match value with
        | some _ => faults
        | none => faults ++ [.unsupportedFieldType owner field.name field.type]) := by
  induction fields with
  | nil => exact .nil
  | cons field rest ih =>
    have hfield := hstart field.type
    cases hresult : start field.type with
    | mk value faults =>
      rw [hresult] at hfield
      simp only [List.map_cons, List.filterMap_cons, List.flatMap_cons, hresult]
      cases value with
      | some value => exact .kept hfield ih
      | none =>
        obtain rfl := hfield.faults_of_none
        exact .omitted hfield ih

/-- Distinct classes of the table are no more than it holds. -/
theorem length_le_of_known (hnodup : path.Nodup)
    (hknown : ∀ name ∈ path, classes.find? name ≠ none) : path.length ≤ classes.length := by
  have hsubset : path ⊆ classes.map (·.name) := by
    intro name hname
    obtain ⟨template, hfind⟩ := Option.ne_none_iff_exists'.mp (hknown name hname)
    rw [← find?_name hfind]
    exact List.mem_map_of_mem (List.mem_of_find?_eq_some hfind)
  have hlength := (List.subperm_of_subset hnodup hsubset).length_le
  rwa [List.length_map] at hlength

theorem startWithin_plain {fuel : Nat} (hclass : ∀ name, type ≠ .object name) :
    startWithin (fuel + 1) classes path type = (type.zero?, []) := by
  cases type with
  | object name => exact absurd rfl (hclass name)
  | array element =>
    simp only [startWithin, DataType.zero?, beq_iff_eq]
  | _ => rfl

/-- The expansion finds the start of every type. Each class it enters makes the path longer and the
fuel less, and the path stays within the table. -/
theorem startWithin_starts (fuel : Nat) (path : List String) (type : DataType)
    (hnodup : path.Nodup) (hknown : ∀ name ∈ path, classes.find? name ≠ none)
    (hfuel : classes.length < fuel + path.length) :
    classes.Starts path type (startWithin fuel classes path type).1
      (startWithin fuel classes path type).2 := by
  induction fuel generalizing path type with
  | zero =>
    have hlength := length_le_of_known hnodup hknown
    omega
  | succ fuel ih =>
    by_cases hclass : ∃ name, type = .object name
    · obtain ⟨name, rfl⟩ := hclass
      simp only [startWithin, List.contains_iff_mem]
      split
      · rename_i hpath
        exact .cyclic hpath
      · rename_i hpath
        cases hfind : classes.find? name with
        | none =>
          simp only [expand, hfind]
          exact .unknown hpath hfind
        | some template =>
          simp only [expand, hfind, find?_name hfind]
          apply Starts.known hpath hfind
          apply fills_collected
          intro type
          apply ih
          · exact List.nodup_cons.mpr ⟨hpath, hnodup⟩
          · intro inner hinner
            rcases List.mem_cons.mp hinner with rfl | hinner
            · rw [hfind]
              exact Option.some_ne_none template
            · exact hknown inner hinner
          · rw [List.length_cons]
            omega
    · have hplain : ∀ name, type ≠ .object name := fun name hname => hclass ⟨name, hname⟩
      rw [startWithin_plain hplain]
      cases hzero : type.zero? with
      | none => exact .bare hzero hplain
      | some value => exact .zero hzero

theorem start_starts (classes : ClassTable) (type : DataType) :
    classes.Starts [] type (classes.start type).1 (classes.start type).2 :=
  startWithin_starts _ [] type List.nodup_nil (List.forall_mem_nil _) (by
    unfold enoughFuel
    omega)

/-- More fuel than there are classes changes nothing. -/
theorem startWithin_eq_start {fuel : Nat} (hfuel : classes.length < fuel) (type : DataType) :
    startWithin fuel classes [] type = classes.start type := by
  have hwithin := startWithin_starts fuel [] type List.nodup_nil (List.forall_mem_nil _) hfuel
  obtain ⟨hvalue, hfaults⟩ := hwithin.unique (classes.start_starts type)
  exact Prod.ext hvalue hfaults

/-- A fresh object is the start of a variable of its class. -/
theorem start_object (classes : ClassTable) (name : String) :
    classes.start (.object name) =
      (some (classes.instantiate name).1, (classes.instantiate name).2) := by
  have hfuel : classes.length < classes.enoughFuel + 1 := by
    unfold enoughFuel
    omega
  exact (startWithin_eq_start hfuel _).symm

theorem instantiate_starts (classes : ClassTable) (name : String) :
    classes.Starts [] (.object name) (some (classes.instantiate name).1)
      (classes.instantiate name).2 := by
  have hstart := classes.start_starts (.object name)
  rwa [start_object] at hstart

end ClassTable

end BuildScript
