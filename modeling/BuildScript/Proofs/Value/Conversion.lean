import BuildScript.Proofs.Number.Singles
import BuildScript.Proofs.Typing.Values
import BuildScript.Proofs.Value.Comparison
import BuildScript.Proofs.Value.Concatenation

/-!
Conversion between types. The table says which types convert to which; what a value becomes is a table
of its own, and the two have the same rows. The only value that cannot be converted along a row is a
number with no 32 bit integer behind its point cut off.
-/

namespace BuildScript

namespace DataType

theorem convertsTo_refl (type : DataType) : type.convertsTo type = true := by
  simp [convertsTo]

theorem convertsTo_trans {first second third : DataType} (h : first.convertsTo second = true)
    (h' : second.convertsTo third = true) : first.convertsTo third = true := by
  rw [convertsTo_iff] at h h' ⊢
  rcases h with rfl | ⟨hempty, element, rfl⟩ | ⟨hfirst, hsecond⟩
  · exact h'
  · -- From an array type there are arrays only.
    rcases h' with rfl | ⟨-, hthird⟩ | ⟨hnumeric, -⟩
    · exact .inr (.inl ⟨hempty, element, rfl⟩)
    · exact .inr (.inl ⟨hempty, hthird⟩)
    · cases hnumeric
  · rcases h' with rfl | ⟨rfl, -⟩ | ⟨-, hthird⟩
    · exact .inr (.inr ⟨hfirst, hsecond⟩)
    · cases hsecond
    · exact .inr (.inr ⟨hfirst, hthird⟩)

end DataType

namespace Integer

theorem ofSingle_eq_ok_iff {x : Float32} {i : Int32} :
    ofSingle x = .ok i ↔ Single.Truncates x i.toInt := by
  unfold ofSingle
  rw [← Single.truncate?_eq_some_iff]
  cases Single.truncate? x with
  | none => simp
  | some n =>
    cases hfits : ofInt? n with
    | none =>
      have hne : n ≠ i.toInt := by
        rintro rfl
        exact ofInt?_eq_none_iff.mp hfits (fits_toInt i)
      simp [hfits, hne]
    | some j =>
      obtain rfl := ofInt?_eq_some_iff.mp hfits
      simp [ofInt?_toInt, Int32.toInt_inj]

end Integer

namespace Value

variable {value result : Value} {target : DataType}

/-- What a value becomes when it is converted to a type, row by row. -/
inductive ConvertsTo : Value → DataType → Value → Prop
  | kept (value : Value) : ConvertsTo value value.type value
  | boolInt (b : Bool) : ConvertsTo (.bool b) .int (.int (if b then 1 else 0))
  | boolFloat (b : Bool) : ConvertsTo (.bool b) .float (.float (if b then 1.0 else 0.0))
  | intBool (i : Int32) : ConvertsTo (.int i) .bool (.bool (i != 0))
  | intFloat (i : Int32) : ConvertsTo (.int i) .float (.float (Single.ofInt i.toInt))
  | floatBool (x : Float32) : ConvertsTo (.float x) .bool (.bool (x != 0.0))
  | floatInt {x : Float32} {i : Int32} (h : Single.Truncates x i.toInt) :
    ConvertsTo (.float x) .int (.int i)
  | untyped (element : DataType) :
    ConvertsTo (.array .void []) (.array element) (.array element [])

/-- A value of the type already is given back. -/
theorem convert_self (value : Value) : value.convert value.type = .ok value := by
  unfold convert
  rw [if_pos value.type.convertsTo_refl]
  cases value with
  | atom atom => cases atom <;> rfl
  | array element items => cases items <;> rfl
  | list items | object className fields methods => rfl

theorem ConvertsTo.convert_eq (h : ConvertsTo value target result) :
    value.convert target = .ok result := by
  cases h with
  | kept => exact value.convert_self
  | @floatInt x i h =>
    have hconverts : (Value.float x).type.convertsTo .int = true := rfl
    unfold convert
    rw [if_pos hconverts]
    simp only [Atom.convertNumber, Integer.ofSingle_eq_ok_iff.mpr h, Except.map]
  | untyped element =>
    have hconverts : (Value.array .void []).type.convertsTo (.array element) = true :=
      DataType.convertsTo_iff.mpr (.inr (.inl ⟨rfl, element, rfl⟩))
    unfold convert
    rw [if_pos hconverts]
  | boolInt | boolFloat | intBool | intFloat | floatBool => rfl

/-- An array without an element type has no elements. -/
theorem Homogeneous.untyped {items : List Value} (h : (Value.array .void items).Homogeneous) :
    items = [] := by
  cases h with
  | array htype hvoid hitems => exact hvoid rfl

theorem convert_eq_ok_iff (h : value.Homogeneous) :
    value.convert target = .ok result ↔ ConvertsTo value target result := by
  refine ⟨fun hconvert => ?_, ConvertsTo.convert_eq⟩
  have hself (hsame : value.type = target) : ConvertsTo value target result := by
    subst hsame
    rw [convert_self] at hconvert
    cases hconvert
    exact .kept value
  unfold convert at hconvert
  split at hconvert
  case isFalse => cases hconvert
  case isTrue hconverts =>
    rcases DataType.convertsTo_iff.mp hconverts with hsame | ⟨hempty, element, rfl⟩ | ⟨hsource, -⟩
    · exact hself hsame
    · cases value with
      | array other items =>
        cases hempty
        obtain rfl := h.untyped
        cases hconvert
        exact .untyped element
      | atom atom => cases atom <;> cases hempty
      | list items | object className fields methods => cases hempty
    · cases value with
      | atom atom =>
        obtain ⟨number, hnumber, rfl⟩ := ok_of_map_ok hconvert
        obtain ⟨htype, -⟩ := Atom.convertNumber_type hconverts hnumber
        unfold Atom.convertNumber at hnumber
        split at hnumber
        case h_6 x =>
          obtain ⟨i, hinteger, rfl⟩ := ok_of_map_ok hnumber
          exact .floatInt (Integer.ofSingle_eq_ok_iff.mp hinteger)
        case h_7 =>
          -- None of the rows between two types of numbers, so there is only one type.
          cases hnumber
          exact hself htype
        all_goals cases hnumber
        · exact .boolInt _
        · exact .boolFloat _
        · exact .intBool _
        · exact .intFloat _
        · exact .floatBool _
      | array element items | list items | object className fields methods => cases hsource


/-- There is nothing in the value that is no number. -/
inductive NumbersOnly : Value → Prop
  | atom {atom : Atom} (h : ∀ x, atom = .float x → x.isNaN = false) : NumbersOnly (.atom atom)
  | array {element : DataType} {items : List Value} (h : ∀ item ∈ items, NumbersOnly item) :
    NumbersOnly (.array element items)
  | list {items : List Value} (h : ∀ item ∈ items, NumbersOnly item) : NumbersOnly (.list items)
  | object {className : String} {fields : List (String × Value)}
    {methods : List (String × Callable)} (h : ∀ field ∈ fields, NumbersOnly field.2) :
    NumbersOnly (.object className fields methods)

theorem sameItems_self {items : List Value} (h : ∀ item ∈ items, item.same item = true) :
    sameItems items items = true := by
  induction items with
  | nil => rfl
  | cons item rest ih =>
    obtain ⟨hitem, hrest⟩ := List.forall_mem_cons.mp h
    rw [sameItems, hitem, ih hrest]
    rfl

theorem sameFields_self {fields : List (String × Value)}
    (h : ∀ field ∈ fields, field.2.same field.2 = true) : sameFields fields fields = true := by
  induction fields with
  | nil => rfl
  | cons field rest ih =>
    obtain ⟨hfield, hrest⟩ := List.forall_mem_cons.mp h
    rw [sameFields, hfield, ih hrest]
    simp

theorem NumbersOnly.same_self (h : value.NumbersOnly) : value.same value = true := by
  induction h with
  | @atom atom h =>
    unfold same
    by_cases hfloat : atom.isFloat = false
    · exact (Atom.same_iff hfloat atom).mpr rfl
    · cases atom with
      | float x =>
        have hself := Single.beq_self x
        rw [h x rfl] at hself
        exact hself
      | _ => exact absurd rfl hfloat
  | array h ih => simp [same, sameItems_self ih]
  | list h ih => simp [same, sameItems_self ih]
  | object h ih => simp [same, sameFields_self ih]

/-- Conversion makes numbers of numbers. -/
theorem ConvertsTo.numbersOnly (h : ConvertsTo value target result) (hvalue : value.NumbersOnly) :
    result.NumbersOnly := by
  cases h with
  | kept => exact hvalue
  | boolFloat b =>
    refine .atom fun x hx => ?_
    obtain rfl := Atom.float.inj hx
    cases b <;> decide
  | intFloat i =>
    refine .atom fun x hx => ?_
    obtain rfl := Atom.float.inj hx
    exact Single.ofInt_isNaN i.toInt
  | untyped element => exact .array (List.forall_mem_nil _)
  | boolInt | intBool | floatBool | floatInt => exact .atom fun x hx => by cases hx

theorem ConvertsTo.type_eq (h : ConvertsTo value target result) : result.type = target := by
  cases h <;> rfl

theorem ConvertsTo.homogeneous (h : ConvertsTo value target result) (hvalue : value.Homogeneous) :
    result.Homogeneous := by
  cases h with
  | kept => exact hvalue
  | untyped element =>
    exact .array (List.forall_mem_nil _) (fun _ => rfl) (List.forall_mem_nil _)
  | boolInt | boolFloat | intBool | intFloat | floatBool | floatInt => exact .atom _

/-- Between types that convert there is a row for every value, but for the range of the integers. -/
theorem exists_convertsTo (h : value.Homogeneous) (hconverts : value.type.convertsTo target = true)
    (hrange : ∀ x, value = .float x → target = .int →
      ∃ n, Single.Truncates x n ∧ Integer.Fits n) : ∃ result, ConvertsTo value target result := by
  rcases DataType.convertsTo_iff.mp hconverts with rfl | ⟨hempty, element, rfl⟩ | ⟨hsource, htarget⟩
  · exact ⟨value, .kept value⟩
  · cases value with
    | array other items =>
      cases hempty
      obtain rfl := h.untyped
      exact ⟨_, .untyped element⟩
    | atom atom => cases atom <;> cases hempty
    | list items | object className fields methods => cases hempty
  · cases value with
    | atom atom =>
      cases atom with
      | bool b =>
        cases target with
        | bool => exact ⟨_, .kept (.bool b)⟩
        | int => exact ⟨_, .boolInt b⟩
        | float => exact ⟨_, .boolFloat b⟩
        | _ => cases htarget
      | int i =>
        cases target with
        | bool => exact ⟨_, .intBool i⟩
        | int => exact ⟨_, .kept (.int i)⟩
        | float => exact ⟨_, .intFloat i⟩
        | _ => cases htarget
      | float x =>
        cases target with
        | bool => exact ⟨_, .floatBool x⟩
        | int =>
          obtain ⟨n, htruncates, hfits⟩ := hrange x rfl rfl
          rw [← Int32.toInt_ofInt_of_le hfits.1 hfits.2] at htruncates
          exact ⟨_, .floatInt htruncates⟩
        | float => exact ⟨_, .kept (.float x)⟩
        | _ => cases htarget
      | _ => cases hsource
    | array element items | list items | object className fields methods => cases hsource

theorem ConvertsTo.convertsTo (h : ConvertsTo value target result) :
    value.type.convertsTo target = true := by
  cases h with
  | kept => exact value.type.convertsTo_refl
  | untyped element => exact DataType.convertsTo_iff.mpr (.inr (.inl ⟨rfl, element, rfl⟩))
  | boolInt | boolFloat | intBool | intFloat | floatBool | floatInt => rfl

theorem exists_convert_iff (h : value.Homogeneous) (target : DataType) :
    (∃ result, value.convert target = .ok result) ↔ value.type.convertsTo target = true ∧
      ∀ x, value = .float x → target = .int → ∃ n, Single.Truncates x n ∧ Integer.Fits n := by
  constructor
  · rintro ⟨result, hresult⟩
    have hrow := (convert_eq_ok_iff h).mp hresult
    refine ⟨hrow.convertsTo, ?_⟩
    rintro x rfl rfl
    cases hrow with
    | @floatInt _ i htruncates => exact ⟨i.toInt, htruncates, Integer.fits_toInt i⟩
  · rintro ⟨hconverts, hrange⟩
    obtain ⟨result, hrow⟩ := exists_convertsTo h hconverts hrange
    exact ⟨result, hrow.convert_eq⟩

/-- What converting a value to a type comes to. -/
structure Converts (value : Value) (target : DataType) : Prop where
  /-- It succeeds where the types convert, unless no integer is left of a float. -/
  succeeds : (∃ result, value.convert target = .ok result) ↔
    value.type.convertsTo target = true ∧
      ∀ x, value = .float x → target = .int → ∃ n, Single.Truncates x n ∧ Integer.Fits n
  byTable : ∀ result, value.convert target = .ok result ↔ ConvertsTo value target result
  typed : ∀ result, value.convert target = .ok result →
    result.type = target ∧ result.Homogeneous
  again : ∀ result, value.convert target = .ok result →
    result.convert target = .ok result ∧ (value.NumbersOnly → result.same result = true)
  self : value.convert value.type = .ok value ∧ (value.NumbersOnly → value.same value = true)
  /-- A result in a slot of its own shares no storage with any other slot, such as one that holds the
  value. -/
  declared : ∀ result, value.convert target = .ok result →
    ∀ (memory : Memory) (other : Slot), memory.Solid other →
      memory.StoredApart (memory.alloc result).2 (memory.alloc result).1 result other
  /-- Nor does one in a slot that is not inside the other. -/
  assigned : ∀ result, value.convert target = .ok result →
    ∀ (memory : Memory) (other slot : Slot), memory.Solid other →
      slot.index < memory.cells.size → ¬memory.Inside other slot →
        memory.StoredApart (memory.write slot result) slot result other

/-- A well-formed value is converted to any type as the table says: it becomes exactly of that type,
stays what it is if it is converted once more, and shares no storage with the value it was. The table
is reflexive and transitive over all types. -/
theorem conversion_follows_table (h : value.Homogeneous) (target : DataType) :
    Converts value target ∧ (∀ type : DataType, type.convertsTo type = true) ∧
      ∀ first second third : DataType, first.convertsTo second = true →
        second.convertsTo third = true → first.convertsTo third = true := by
  refine ⟨?_, DataType.convertsTo_refl, fun _ _ _ => DataType.convertsTo_trans⟩
  have hrow {result : Value} (hresult : value.convert target = .ok result) :
      ConvertsTo value target result := (convert_eq_ok_iff h).mp hresult
  exact {
    succeeds := exists_convert_iff h target
    byTable := fun result => convert_eq_ok_iff h
    typed := fun result hresult => ⟨(hrow hresult).type_eq, (hrow hresult).homogeneous h⟩
    again := fun result hresult => by
      refine ⟨?_, fun hvalue => ((hrow hresult).numbersOnly hvalue).same_self⟩
      have hself := result.convert_self
      rwa [(hrow hresult).type_eq] at hself
    self := ⟨value.convert_self, NumbersOnly.same_self⟩
    declared := fun result hresult memory other hsolid => hsolid.alloc_apart result
    assigned := fun result hresult memory other slot hsolid hslot houtside =>
      hsolid.write_apart hslot houtside result }

/-- The array without an element type in storage, and what it becomes as an array of arrays of
integers beside it. -/
theorem untyped_array_converts :
    (Value.array .void []).Homogeneous ∧
      (Value.array .void []).convert (.array (.array .int)) = .ok (.array (.array .int) []) ∧
      (Value.array (.array .int) []).type = .array (.array .int) ∧
      (Memory.empty.alloc (.array .void [])).2.StoredApart
        ((Memory.empty.alloc (.array .void [])).2.alloc (.array (.array .int) [])).2
        ((Memory.empty.alloc (.array .void [])).2.alloc (.array (.array .int) [])).1
        (.array (.array .int) []) (Memory.empty.alloc (.array .void [])).1 := by
  have hvalue : (Value.array .void []).Homogeneous :=
    .array (List.forall_mem_nil _) (fun _ => rfl) (List.forall_mem_nil _)
  obtain ⟨hconverts, -⟩ := conversion_follows_table hvalue (.array (.array .int))
  have hresult := (hconverts.byTable _).mpr (.untyped (.array .int))
  have hsolid : (Memory.empty.alloc (.array .void [])).2.Solid
      (Memory.empty.alloc (.array .void [])).1 :=
    (Memory.alloc_sprouts _ _).solid _ (Memory.alloc_slot _ _).1 (Memory.alloc_slot _ _).2
  exact ⟨hvalue, hresult, (hconverts.typed _ hresult).1, hconverts.declared _ hresult _ _ hsolid⟩

end Value

end BuildScript
