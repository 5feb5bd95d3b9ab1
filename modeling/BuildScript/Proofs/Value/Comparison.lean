import Mathlib.Data.String.Basic
import BuildScript.Proofs.Storage.Histories
import BuildScript.Proofs.Storage.Binding
import BuildScript.Proofs.Value.Arithmetic

/-!
Comparing values without floats. Each such value has a face: the integer of a number, the text of a
text, and of anything else the tree of what makes it the same as another. Two values that can be
compared at all are equal exactly if they have one face, so equality has the laws of an identity.
Numbers are ordered as integers and texts by their characters.
-/

namespace BuildScript

/-- What makes two values without floats the same: their structure, with the identities of the
definitions in it. -/
inductive Essence where
  | void (name : String)
  | bool (value : Bool)
  | int (value : Int32)
  | float (value : Float32)
  | string (text : String)
  | macroText (text : String)
  | typeName (type : DataType)
  | builtin (builtin : Builtin)
  | native (id : Identity)
  | user (id : Identity)
  | procedure (id : Identity)
  | classTemplate (id : Identity)
  | array (element : DataType) (items : List Essence)
  | list (items : List Essence)
  | object (className : String) (fields : List (String × Essence))

def Callable.essence : Callable → Essence
  | builtin b => .builtin b
  | native n => .native n.id
  | user f => .user f.id

theorem Callable.same_iff (f g : Callable) : f.same g = true ↔ f.essence = g.essence := by
  cases f <;> cases g <;> simp [same, essence]

namespace Atom

def isFloat : Atom → Bool
  | float _ => true
  | _ => false

def essence : Atom → Essence
  | void name => .void name
  | bool value => .bool value
  | int value => .int value
  | float value => .float value
  | string text => .string text
  | macroText text => .macroText text
  | typeName type => .typeName type
  | function callable _ => callable.essence
  | procedure p => .procedure p.id
  | classTemplate t => .classTemplate t.id

theorem same_iff {a : Atom} (h : a.isFloat = false) (b : Atom) :
    a.same b = true ↔ a.essence = b.essence := by
  cases a with
  | float value => cases h
  | function f receiver =>
    cases b with
    | function g receiver' => exact f.same_iff g
    | _ => cases f <;> simp [same, essence, Callable.essence]
  | _ =>
    cases b with
    | function g receiver => cases g <;> simp [same, essence, Callable.essence]
    | _ => simp [same, essence]

end Atom

namespace Value

mutual

/-- There is no float in the value. -/
def floatFree : Value → Bool
  | atom a => !a.isFloat
  | array _ items | list items => itemsFloatFree items
  | object _ fields _ => fieldsFloatFree fields

def itemsFloatFree : List Value → Bool
  | [] => true
  | item :: rest => item.floatFree && itemsFloatFree rest

def fieldsFloatFree : List (String × Value) → Bool
  | [] => true
  | (_, value) :: rest => value.floatFree && fieldsFloatFree rest

end

mutual

def essence : Value → Essence
  | atom a => a.essence
  | array element items => .array element (itemEssences items)
  | list items => .list (itemEssences items)
  | object className fields _ => .object className (fieldEssences fields)

def itemEssences : List Value → List Essence
  | [] => []
  | item :: rest => item.essence :: itemEssences rest

def fieldEssences : List (String × Value) → List (String × Essence)
  | [] => []
  | (name, value) :: rest => (name, value.essence) :: fieldEssences rest

end

/-- An atom has an essence of its own kind. -/
theorem essence_atom_ne (a : Atom) : (∀ element items, a.essence ≠ .array element items) ∧
    (∀ items, a.essence ≠ .list items) ∧
      ∀ className fields, a.essence ≠ .object className fields := by
  cases a with
  | function callable receiver => cases callable <;> simp [Atom.essence, Callable.essence]
  | _ => simp [Atom.essence]

mutual

/-- Values without floats are the same exactly if they have the same essence. -/
theorem same_iff : (v w : Value) → v.floatFree = true →
    (v.same w = true ↔ v.essence = w.essence)
  | atom a, atom b, h => by
    unfold floatFree at h
    exact Atom.same_iff (by simpa using h) b
  | array s xs, array t ys, h => by
    unfold floatFree at h
    simp [same, essence, sameItems_iff xs ys h]
  | list xs, list ys, h => by
    unfold floatFree at h
    simp [same, essence, sameItems_iff xs ys h]
  | object c fs _, object d gs _, h => by
    unfold floatFree at h
    simp [same, essence, sameFields_iff fs gs h]
  | atom a, array _ _, _ | atom a, list _, _ | atom a, object _ _ _, _ => by
    simp [same, essence, essence_atom_ne a]
  | array _ _, atom b, _ => by simp [same, essence, ((essence_atom_ne b).1 _ _).symm]
  | list _, atom b, _ => by simp [same, essence, ((essence_atom_ne b).2.1 _).symm]
  | object _ _ _, atom b, _ => by simp [same, essence, ((essence_atom_ne b).2.2 _ _).symm]
  | array _ _, list _, _ | array _ _, object _ _ _, _ | list _, array _ _, _
  | list _, object _ _ _, _ | object _ _ _, array _ _, _ | object _ _ _, list _, _ => by
    simp [same, essence]

theorem sameItems_iff : (xs ys : List Value) → itemsFloatFree xs = true →
    (sameItems xs ys = true ↔ itemEssences xs = itemEssences ys)
  | [], [], _ | [], _ :: _, _ | _ :: _, [], _ => by simp [sameItems, itemEssences]
  | x :: xs, y :: ys, h => by
    unfold itemsFloatFree at h
    obtain ⟨hfirst, hrest⟩ := (Bool.and_eq_true _ _).mp h
    simp [sameItems, itemEssences, same_iff x y hfirst, sameItems_iff xs ys hrest]

theorem sameFields_iff : (fs gs : List (String × Value)) → fieldsFloatFree fs = true →
    (sameFields fs gs = true ↔ fieldEssences fs = fieldEssences gs)
  | [], [], _ | [], _ :: _, _ | _ :: _, [], _ => by simp [sameFields, fieldEssences]
  | (_, x) :: fs, (_, y) :: gs, h => by
    unfold fieldsFloatFree at h
    obtain ⟨hfirst, hrest⟩ := (Bool.and_eq_true _ _).mp h
    simp [sameFields, fieldEssences, same_iff x y hfirst, sameFields_iff fs gs hrest, and_assoc]

end

end Value

/-- What values of a type are compared with. -/
inductive Kind where
  | number
  | text
  | other (type : DataType)

def DataType.kind : DataType → Kind
  | bool | int | float => .number
  | string | macroText => .text
  | type => .other type

/-- What values of one kind without floats are compared by. -/
inductive Face where
  | number (value : Int)
  | text (text : String)
  | other (essence : Essence)

def Value.face (value : Value) : Face :=
  match Operation.bits? value, value.text? with
  | some i, _ => .number i.toInt
  | none, some text => .text text
  | none, none => .other value.essence

namespace Operation

variable {a b c v w : Value}

theorem kind_number_iff (v : Value) :
    v.type.kind = .number ↔ ∃ n, Numeric.ofValue? v = some n := by
  cases v with
  | atom atom => cases atom <;> simp [Value.type, Atom.type, DataType.kind, Numeric.ofValue?]
  | _ => simp [Value.type, DataType.kind, Numeric.ofValue?]

theorem kind_text_iff (v : Value) : v.type.kind = .text ↔ ∃ text, v.text? = some text := by
  cases v with
  | atom atom => cases atom <;> simp [Value.type, Atom.type, DataType.kind, Value.text?]
  | _ => simp [Value.type, DataType.kind, Value.text?]

theorem kind_other_iff (v : Value) {type : DataType} (h : v.type.kind = .other type) :
    Numeric.ofValue? v = none ∧ v.text? = none ∧ v.type = type := by
  cases v with
  | atom atom =>
    cases atom <;> simp_all [Value.type, Atom.type, DataType.kind, Numeric.ofValue?, Value.text?]
  | _ => simp_all [Value.type, DataType.kind, Numeric.ofValue?, Value.text?]

theorem ofValue?_of_text? {text : String} (h : v.text? = some text) :
    Numeric.ofValue? v = none := by
  unfold Value.text? at h
  split at h
  · rfl
  · rfl
  · cases h

/-- The numbers among the values without floats are the integers. -/
theorem ofValue?_floatFree (h : v.floatFree = true) :
    Numeric.ofValue? v = (bits? v).map Numeric.whole := by
  cases v with
  | atom atom =>
    cases atom with
    | float value => simp [Value.floatFree, Atom.isFloat] at h
    | _ => rfl
  | _ => rfl

/-- The comparisons of two values come out as those of two elements of a linear order. -/
structure Ranked {α : Type} [LinearOrder α] (v w : Value) (x y : α) : Prop where
  less : binary .less v w = .ok (.bool (decide (x < y)))
  lessEqual : binary .lessEqual v w = .ok (.bool (decide (x ≤ y)))
  greater : binary .greater v w = .ok (.bool (decide (y < x)))
  greaterEqual : binary .greaterEqual v w = .ok (.bool (decide (y ≤ x)))
  equal : binary .equal v w = .ok (.bool (decide (x = y)))

/-- What is compared by an order is ranked by it. -/
theorem ranked_of_order {α : Type} [LinearOrder α] {x y : α}
    (hordering : ∀ op, ordering op v w = .ok (.bool (satisfies op (compareOfLessAndEq x y))))
    (hequal : equal? v w = some (decide (x = y))) : Ranked v w x y := by
  have horder : ordering .less v w = .ok (.bool (decide (x < y))) ∧
      ordering .lessEqual v w = .ok (.bool (decide (x ≤ y))) ∧
      ordering .greater v w = .ok (.bool (decide (y < x))) ∧
      ordering .greaterEqual v w = .ok (.bool (decide (y ≤ x))) := by
    simp only [hordering, compareOfLessAndEq]
    rcases lt_trichotomy x y with hlt | heq | hgt
    · simp [hlt, hlt.le, hlt.not_gt, hlt.not_ge, satisfies]
    · simp [heq, satisfies]
    · simp [hgt, hgt.le, hgt.not_gt, hgt.not_ge, hgt.ne', satisfies]
  obtain ⟨hless, hlessEqual, hgreater, hgreaterEqual⟩ := horder
  have hequality : equality .equal v w = .ok (.bool (decide (x = y))) := by
    unfold equality
    rw [hequal]
    rfl
  exact ⟨hless, hlessEqual, hgreater, hgreaterEqual, hequality⟩

theorem equal?_numbers {i j : Int32} (hv : bits? v = some i) (hw : bits? w = some j) :
    equal? v w = some (decide (i.toInt = j.toInt)) := by
  have hsame : (compareOfLessAndEq i.toInt j.toInt).isEq = decide (i.toInt = j.toInt) := by
    unfold compareOfLessAndEq
    rcases lt_trichotomy i.toInt j.toInt with hlt | heq | hgt
    · simp [hlt, hlt.ne]
    · simp [heq]
    · simp [hgt.not_gt, hgt.ne']
  unfold equal?
  rw [ofValue?_of_bits? hv, ofValue?_of_bits? hw, ← hsame]
  rfl

theorem equal?_texts {s t : String} (hv : v.text? = some s) (hw : w.text? = some t) :
    equal? v w = some (decide (s = t)) := by
  unfold equal?
  rw [ofValue?_of_text? hv, hv, hw]
  rfl

theorem ranked_numbers {i j : Int32} (hv : bits? v = some i) (hw : bits? w = some j) :
    Ranked v w i.toInt j.toInt := by
  have hv' := ofValue?_of_bits? hv
  have hw' := ofValue?_of_bits? hw
  apply ranked_of_order
  · intro op
    unfold ordering
    rw [hv', hw']
    rfl
  · exact equal?_numbers hv hw

theorem ranked_texts {s t : String} (hv : v.text? = some s) (hw : w.text? = some t) :
    Ranked v w s t := by
  have hv' := ofValue?_of_text? hv
  apply ranked_of_order
  · intro op
    unfold ordering
    rw [hv', hv, hw]
    rfl
  · exact equal?_texts hv hw

theorem face_of_bits? {i : Int32} (h : bits? v = some i) : v.face = .number i.toInt := by
  unfold Value.face
  rw [h]

theorem face_of_text? {text : String} (h : v.text? = some text) : v.face = .text text := by
  unfold Value.text? at h
  split at h <;> cases h <;> rfl

theorem face_of_kind_other (h : v.floatFree = true) {type : DataType}
    (hkind : v.type.kind = .other type) : v.face = .other v.essence := by
  obtain ⟨hnumber, htext, -⟩ := kind_other_iff v hkind
  rw [ofValue?_floatFree h, Option.map_eq_none_iff] at hnumber
  unfold Value.face
  rw [hnumber, htext]

/-- A value without floats that counts as a number is an integer or a boolean. -/
theorem bits?_of_kind_number (h : v.floatFree = true) (hkind : v.type.kind = .number) :
    ∃ i, bits? v = some i := by
  obtain ⟨n, hnumber⟩ := (kind_number_iff v).mp hkind
  rw [ofValue?_floatFree h, Option.map_eq_some_iff] at hnumber
  obtain ⟨i, hbits, -⟩ := hnumber
  exact ⟨i, hbits⟩

theorem equal?_of_kind_ne (h : v.type.kind ≠ w.type.kind) : equal? v w = none := by
  unfold equal?
  split
  · rename_i hv hw
    exact absurd (((kind_number_iff v).mpr ⟨_, hv⟩).trans ((kind_number_iff w).mpr ⟨_, hw⟩).symm) h
  · split
    · rename_i hv hw
      exact absurd (((kind_text_iff v).mpr ⟨_, hv⟩).trans ((kind_text_iff w).mpr ⟨_, hw⟩).symm) h
    · have htype : v.type ≠ w.type := fun htype => h (congrArg DataType.kind htype)
      simp [htype]

/-- Values of one kind can be compared, and have to be of one type if they are neither numbers nor
texts. Without floats they are equal exactly if they have one face. -/
theorem equal?_of_kind_eq (hv : v.floatFree = true) (hw : w.floatFree = true)
    (h : v.type.kind = w.type.kind) :
    ∃ equal, equal? v w = some equal ∧ (equal = true ↔ v.face = w.face) := by
  cases hkind : v.type.kind with
  | number =>
    obtain ⟨i, hi⟩ := bits?_of_kind_number hv hkind
    obtain ⟨j, hj⟩ := bits?_of_kind_number hw (h.symm.trans hkind)
    exact ⟨_, equal?_numbers hi hj, by simp [face_of_bits? hi, face_of_bits? hj]⟩
  | text =>
    obtain ⟨s, hs⟩ := (kind_text_iff v).mp hkind
    obtain ⟨t, ht⟩ := (kind_text_iff w).mp (h.symm.trans hkind)
    exact ⟨_, equal?_texts hs ht, by simp [face_of_text? hs, face_of_text? ht]⟩
  | other type =>
    have hkind' := h.symm.trans hkind
    obtain ⟨hnumber, htext, htype⟩ := kind_other_iff v hkind
    obtain ⟨-, -, htype'⟩ := kind_other_iff w hkind'
    refine ⟨v.same w, ?_, ?_⟩
    · unfold equal?
      rw [hnumber, htext, htype, htype']
      simp
    · rw [face_of_kind_other hv hkind, face_of_kind_other hw hkind', Value.same_iff v w hv]
      simp

theorem equal?_eq_true_iff (hv : v.floatFree = true) (hw : w.floatFree = true) :
    equal? v w = some true ↔ v.type.kind = w.type.kind ∧ v.face = w.face := by
  by_cases h : v.type.kind = w.type.kind
  · obtain ⟨equal, hequal, hface⟩ := equal?_of_kind_eq hv hw h
    rw [hequal, Option.some_inj, hface]
    exact (and_iff_right h).symm
  · simp [equal?_of_kind_ne h, h]

theorem equal?_comm (hv : v.floatFree = true) (hw : w.floatFree = true) :
    equal? v w = equal? w v := by
  by_cases h : v.type.kind = w.type.kind
  · obtain ⟨equal, hequal, hface⟩ := equal?_of_kind_eq hv hw h
    obtain ⟨equal', hequal', hface'⟩ := equal?_of_kind_eq hw hv h.symm
    rw [hequal, hequal', Option.some_inj, Bool.eq_iff_iff, hface, hface']
    exact eq_comm
  · rw [equal?_of_kind_ne h, equal?_of_kind_ne (Ne.symm h)]

/-- The operator is defined on the operands and says yes. -/
def Holds (op : Operator) (left right : Value) : Prop := binary op left right = .ok (.bool true)

/-- The operator is defined on the operands and says no. -/
def Fails (op : Operator) (left right : Value) : Prop := binary op left right = .ok (.bool false)

/-- Two numbers or two texts. -/
def Orderable (left right : Value) : Prop :=
  (left.type.kind = .number ∧ right.type.kind = .number) ∨
    (left.type.kind = .text ∧ right.type.kind = .text)

theorem holds_equal_iff : Holds .equal v w ↔ equal? v w = some true := by
  unfold Holds binary equality
  cases equal? v w <;> simp

theorem Orderable.right (h : Orderable v w) : Orderable w w :=
  h.imp (fun h => ⟨h.2, h.2⟩) (fun h => ⟨h.2, h.2⟩)

/-- Only what can be ordered is less than something. -/
theorem Holds.orderable (h : Holds .less v w) : Orderable v w := by
  replace h : ordering .less v w = .ok (.bool true) := h
  unfold ordering at h
  split at h
  · rename_i hv hw
    exact .inl ⟨(kind_number_iff v).mpr ⟨_, hv⟩, (kind_number_iff w).mpr ⟨_, hw⟩⟩
  · split at h
    · rename_i hv hw
      exact .inr ⟨(kind_text_iff v).mpr ⟨_, hv⟩, (kind_text_iff w).mpr ⟨_, hw⟩⟩
    · cases h

/-- What can be ordered is ranked, a third operand in the same order. -/
theorem exists_ranked (ha : a.floatFree = true) (hb : b.floatFree = true) (hc : c.floatFree = true)
    (hab : Orderable a b) (hbc : Orderable b c) :
    ∃ (α : Type) (_ : LinearOrder α) (x y z : α),
      Ranked a b x y ∧ Ranked b c y z ∧ Ranked a c x z := by
  rcases hab with ⟨hkind, hkind'⟩ | ⟨hkind, hkind'⟩
  · rcases hbc with ⟨-, hkind''⟩ | ⟨htext, -⟩
    · obtain ⟨i, hi⟩ := bits?_of_kind_number ha hkind
      obtain ⟨j, hj⟩ := bits?_of_kind_number hb hkind'
      obtain ⟨k, hk⟩ := bits?_of_kind_number hc hkind''
      exact ⟨Int, inferInstance, i.toInt, j.toInt, k.toInt, ranked_numbers hi hj,
        ranked_numbers hj hk, ranked_numbers hi hk⟩
    · simp [hkind'] at htext
  · rcases hbc with ⟨hnumber, -⟩ | ⟨-, hkind''⟩
    · simp [hkind'] at hnumber
    · obtain ⟨s, hs⟩ := (kind_text_iff a).mp hkind
      obtain ⟨t, ht⟩ := (kind_text_iff b).mp hkind'
      obtain ⟨u, hu⟩ := (kind_text_iff c).mp hkind''
      exact ⟨String, inferInstance, s, t, u, ranked_texts hs ht, ranked_texts ht hu,
        ranked_texts hs hu⟩

/-- The laws of comparing. A copy of a value is what a slot holds after the value was stored. -/
structure Coherent (a b c : Value) : Prop where
  reflexive : Holds .equal a a
  symmetric : ∀ outcome, binary .equal a b = .ok outcome → binary .equal b a = .ok outcome
  transitive : Holds .equal a b → Holds .equal b c → Holds .equal a c
  negation :
    (∃ equal, binary .equal a b = .ok (.bool equal) ∧
      binary .notEqual a b = .ok (.bool !equal)) ∨
    (binary .equal a b = .error (invalid .equal a b) ∧
      binary .notEqual a b = .error (invalid .notEqual a b))
  copied : ∀ (memory : Memory) (original : Slot), memory.Solid original →
    memory.load original = a →
    Holds .equal ((memory.alloc a).2.load (memory.alloc a).1) ((memory.alloc a).2.load original)
  assigned : ∀ (memory : Memory) (target : Slot), target.index < memory.cells.size →
    Holds .equal ((memory.write target a).load target) a
  trichotomous : Orderable a b →
    (Holds .less a b ∧ Fails .equal a b ∧ Fails .greater a b) ∨
    (Fails .less a b ∧ Holds .equal a b ∧ Fails .greater a b) ∨
    (Fails .less a b ∧ Fails .equal a b ∧ Holds .greater a b)
  increasing : Holds .less a b → Holds .less b c → Holds .less a c
  lessEqual : Orderable a b → ∃ holds, binary .lessEqual a b = .ok (.bool holds) ∧
    (holds = true ↔ Holds .less a b ∨ Holds .equal a b)
  greaterEqual : Orderable a b → ∃ holds, binary .greaterEqual a b = .ok (.bool holds) ∧
    (holds = true ↔ Holds .greater a b ∨ Holds .equal a b)

namespace Ranked

variable {α : Type} [LinearOrder α] {x y z : α}

theorem holds_less_iff (h : Ranked v w x y) : Holds .less v w ↔ x < y := by
  unfold Holds
  simp [h.less]

theorem holds_greater_iff (h : Ranked v w x y) : Holds .greater v w ↔ y < x := by
  unfold Holds
  simp [h.greater]

theorem holds_equal_iff (h : Ranked v w x y) : Holds .equal v w ↔ x = y := by
  unfold Holds
  simp [h.equal]

theorem trichotomous (h : Ranked v w x y) :
    (Holds .less v w ∧ Fails .equal v w ∧ Fails .greater v w) ∨
    (Fails .less v w ∧ Holds .equal v w ∧ Fails .greater v w) ∨
    (Fails .less v w ∧ Fails .equal v w ∧ Holds .greater v w) := by
  unfold Holds Fails
  rw [h.less, h.equal, h.greater]
  rcases lt_trichotomy x y with hlt | heq | hgt
  · simp [hlt, hlt.ne, hlt.not_gt]
  · simp [heq]
  · simp [hgt, hgt.ne', hgt.not_gt]

theorem lessEqual_iff (h : Ranked v w x y) :
    ∃ holds, binary .lessEqual v w = .ok (.bool holds) ∧
      (holds = true ↔ Holds .less v w ∨ Holds .equal v w) := by
  refine ⟨_, h.lessEqual, ?_⟩
  rw [h.holds_less_iff, h.holds_equal_iff, decide_eq_true_iff]
  exact le_iff_lt_or_eq

theorem greaterEqual_iff (h : Ranked v w x y) :
    ∃ holds, binary .greaterEqual v w = .ok (.bool holds) ∧
      (holds = true ↔ Holds .greater v w ∨ Holds .equal v w) := by
  refine ⟨_, h.greaterEqual, ?_⟩
  rw [h.holds_greater_iff, h.holds_equal_iff, decide_eq_true_iff, eq_comm]
  exact le_iff_lt_or_eq

end Ranked

theorem holds_equal_self (h : v.floatFree = true) : Holds .equal v v :=
  holds_equal_iff.mpr ((equal?_eq_true_iff h h).mpr ⟨rfl, rfl⟩)

/-- Comparing values without floats is coherent: equality is an equivalence wherever it is defined,
inequality is its negation, a copy is equal to its original, and numbers and texts are in a linear
order that agrees with equality. -/
theorem comparison_coherent (ha : a.floatFree = true) (hb : b.floatFree = true)
    (hc : c.floatFree = true) : Coherent a b c where
  reflexive := holds_equal_self ha
  symmetric outcome h := by
    unfold binary equality at h ⊢
    rw [← equal?_comm ha hb]
    cases hequal : equal? a b <;> simp_all
  transitive hab hbc := by
    rw [holds_equal_iff, equal?_eq_true_iff ha hb] at hab
    rw [holds_equal_iff, equal?_eq_true_iff hb hc] at hbc
    rw [holds_equal_iff, equal?_eq_true_iff ha hc]
    exact ⟨hab.1.trans hbc.1, hab.2.trans hbc.2⟩
  negation := by
    unfold binary equality
    cases equal? a b with
    | none => exact .inr ⟨rfl, rfl⟩
    | some equal => exact .inl ⟨equal, rfl, rfl⟩
  copied memory original hsolid hload := by
    have hgrows := (Memory.alloc_sprouts memory a).toGrows
    rw [Memory.load_alloc (Memory.Grows.refl _), hsolid.load_grows hgrows, hload]
    exact holds_equal_self ha
  assigned memory target htarget := by
    rw [Memory.load_write_self htarget]
    exact holds_equal_self ha
  trichotomous hab := by
    obtain ⟨_, _, _, _, _, hranked, -⟩ := exists_ranked ha hb hb hab hab.right
    exact hranked.trichotomous
  increasing hab hbc := by
    obtain ⟨_, _, x, y, z, hab', hbc', hac⟩ := exists_ranked ha hb hc hab.orderable hbc.orderable
    exact hac.holds_less_iff.mpr
      ((hab'.holds_less_iff.mp hab).trans (hbc'.holds_less_iff.mp hbc))
  lessEqual hab := by
    obtain ⟨_, _, _, _, _, hranked, -⟩ := exists_ranked ha hb hb hab hab.right
    exact hranked.lessEqual_iff
  greaterEqual hab := by
    obtain ⟨_, _, _, _, _, hranked, -⟩ := exists_ranked ha hb hb hab hab.right
    exact hranked.greaterEqual_iff

/-- A list that holds an array and a text, a copy of it and a list whose text is from outside. -/
theorem nested_comparison_coherent :
    Holds .equal (.list [.array .int [.int 1], .string "a"])
      (.list [.array .int [.int 1], .string "a"]) ∧
    binary .notEqual (.list [.array .int [.int 1], .string "a"])
      (.list [.array .int [.int 1], .macroText "a"]) = .ok (.bool true) ∧
    Holds .less (.bool false) (.int 2) := by
  have hlists : Coherent (.list [.array .int [.int 1], .string "a"])
      (.list [.array .int [.int 1], .macroText "a"]) (.list []) :=
    comparison_coherent rfl rfl rfl
  have hnumbers : Coherent (.bool false) (.int 1) (.int 2) := comparison_coherent rfl rfl rfl
  refine ⟨hlists.reflexive, ?_, hnumbers.increasing rfl rfl⟩
  rcases hlists.negation with ⟨equal, hequal, hnotEqual⟩ | ⟨hfault, -⟩
  · cases hequal
    exact hnotEqual
  · cases hfault

end Operation

end BuildScript
