import BuildScript.Proofs.Evaluation.Steps
import BuildScript.Proofs.Storage.Variables
import BuildScript.Proofs.Typing.Cells

/-!
Evaluations on typed machines. Whatever an evaluation does, it leaves a typed machine in which every
slot with a value has kept its type, and its result is what it is said to be there.
-/

namespace BuildScript

/-- Storage holds what it is said to hold, and every variable has a slot in it. -/
structure Machine.Typed (m : Machine) : Prop where
  memory : m.env.memory.Typed m.classes
  scopes : ∀ slot ∈ m.env.scopes.slots, slot.index < m.env.memory.cells.size

/-- Slots with a value have kept its type, and all classes are there still. -/
structure Machine.Settles (m m' : Machine) : Prop where
  classes : m.classes <+: m'.classes
  memory : m.env.memory.Settles m'.env.memory

namespace Machine

variable {m m' m'' : Machine}

/-- What the values of a machine may mention. -/
def realm (m : Machine) : Realm := m.env.memory.realm m.classes

theorem Settles.refl (m : Machine) : m.Settles m := ⟨List.prefix_rfl, .refl _⟩

theorem Settles.trans (h : m.Settles m') (h' : m'.Settles m'') : m.Settles m'' :=
  ⟨h.classes.trans h'.classes, h.memory.trans h'.memory⟩

theorem Settles.realm (h : m.Settles m') : m.realm.Extends m'.realm := h.memory.realm h.classes

/-- Nothing but names was changed, and none of them stands for a new slot. -/
structure Aside (m m' : Machine) : Prop where
  memory : m'.env.memory = m.env.memory
  classes : m'.classes = m.classes
  scopes : m'.env.scopes.slots ⊆ m.env.scopes.slots

theorem Aside.of_env (henv : m'.env = m.env) (hclasses : m'.classes = m.classes) : m.Aside m' := by
  refine ⟨congrArg _ henv, hclasses, ?_⟩
  rw [henv]
  exact List.Subset.refl _

theorem Aside.settles (h : m.Aside m') : m.Settles m' :=
  ⟨h.classes ▸ List.prefix_rfl, h.memory ▸ .refl m.env.memory⟩

theorem Aside.typed (h : m.Aside m') (hm : m.Typed) : m'.Typed := by
  refine ⟨?_, ?_⟩
  · rw [h.memory, h.classes]
    exact hm.memory
  · rw [h.memory]
    exact fun slot hslot => hm.scopes slot (h.scopes hslot)

theorem reportAll_aside (errors : List EvalError) (m : Machine) : m.Aside (m.reportAll errors) := by
  have hsame : (m.reportAll errors).env = m.env ∧ (m.reportAll errors).classes = m.classes := by
    unfold reportAll
    induction errors generalizing m with
    | nil => exact ⟨rfl, rfl⟩
    | cons error rest ih => exact ih (m.report (.eval error))
  exact .of_env hsame.1 hsame.2

end Machine

/-- A value with its parts, or a slot that exists. -/
def Operand.Typed (m : Machine) : Operand → Prop
  | reference slot => slot.index < m.env.memory.cells.size
  | temporary value _ => value.Typed m.realm

theorem Operand.Typed.mono {m m' : Machine} (h : m.Settles m') {operand : Operand}
    (hoperand : operand.Typed m) : operand.Typed m' := by
  cases operand with
  | reference slot => exact Nat.lt_of_lt_of_le hoperand h.memory.cells
  | temporary value isLiteral => exact Value.Typed.mono h.realm hoperand

/-- The values a flow carries are what they are said to be. -/
def Flow.Typed (m : Machine) : Flow → Prop
  | .value result => result.Typed m.realm
  | .giveBack result => ∀ given, result = some given → given.Typed m.realm
  | _ => True

theorem Flow.Typed.mono {m m' : Machine} (h : m.Settles m') {flow : Flow} (hflow : flow.Typed m) :
    flow.Typed m' := by
  cases flow with
  | value result => exact Value.Typed.mono h.realm hflow
  | giveBack result => exact fun given hgiven => (hflow given hgiven).mono h.realm
  | _ => trivial

namespace Eval

variable {α β : Type} {ctx : Context} {m m' : Machine}

/-- The machine after a run is typed, slots have kept their types, and the result is as stated. -/
structure Safe (m : Machine) (Q : Machine → α → Prop) (run : Except Fault α × Machine) : Prop where
  typed : run.2.Typed
  settles : m.Settles run.2
  result : ∀ a, run.1 = .ok a → Q run.2 a

/-- From this machine, if it is typed, the evaluation is safe, whatever is held on to. -/
def Secures (ctx : Context) (m : Machine) (x : Eval α) (Q : Machine → α → Prop) : Prop :=
  m.Typed → ∀ held, Safe m Q (x { ctx with held } m)

namespace Secures

variable {Q : Machine → α → Prop} {R : Machine → β → Prop} {x : Eval α} {f : α → Eval β}

theorem pure {a : α} (h : Q m a) : Secures ctx m (pure a) Q :=
  fun hm _ => ⟨hm, .refl m, fun _ heq => by cases heq; exact h⟩

theorem fail (fault : Fault) : Secures ctx m (Eval.fail fault : Eval α) Q :=
  fun hm _ => ⟨hm, .refl m, fun _ heq => by cases heq⟩

theorem raise (error : EvalError) : Secures ctx m (Eval.raise error : Eval α) Q := fail _

theorem ofExcept {result : Except EvalError α} (h : ∀ a, result = .ok a → Q m a) :
    Secures ctx m (Eval.ofExcept result) Q := by
  cases result with
  | ok a => exact pure (h a rfl)
  | error e => exact fail (.eval e)

theorem bind (hx : Secures ctx m x Q)
    (hf : ∀ a m', m'.Typed → m.Settles m' → Q m' a → Secures ctx m' (f a) R) :
    Secures ctx m (x >>= f) R := by
  intro hm held
  have hfirst := hx hm held
  rw [andThen_apply]
  cases hrun : x { ctx with held } m with
  | mk result between =>
    rw [hrun] at hfirst
    cases result with
    | error e => exact ⟨hfirst.typed, hfirst.settles, fun _ heq => by cases heq⟩
    | ok a =>
      have hrest := hf a between hfirst.typed hfirst.settles (hfirst.result a rfl) hfirst.typed held
      exact ⟨hrest.typed, hfirst.settles.trans hrest.settles, hrest.result⟩

theorem read {f : Machine → Eval β} (h : m.Typed → Secures ctx m (f m) R) :
    Secures ctx m (machine >>= f) R := fun hm held => h hm hm held

/-- A check leaves the machine as it is. -/
theorem check {result : Except EvalError α} (h : ∀ a, result = .ok a → Secures ctx m (f a) R) :
    Secures ctx m (Eval.ofExcept result >>= f) R := by
  intro hm held
  cases result with
  | ok a => exact h a rfl hm held
  | error e => exact ⟨hm, .refl m, fun _ heq => by cases heq⟩

theorem weaken {Q' : Machine → α → Prop} (hx : Secures ctx m x Q)
    (h : ∀ m' a, m'.Typed → m.Settles m' → Q m' a → Q' m' a) : Secures ctx m x Q' := by
  intro hm held
  have hrun := hx hm held
  exact ⟨hrun.typed, hrun.settles, fun a ha => h _ a hrun.typed hrun.settles (hrun.result a ha)⟩

theorem holding (anchors : List Anchor) (hx : Secures ctx m x Q) :
    Secures ctx m (holding anchors x) Q := fun hm held => hx hm (anchors ++ held)

theorem attempt (hx : Secures ctx m x Q) :
    Secures ctx m (attempt x) fun m result => ∀ a, result = .ok a → Q m a := by
  intro hm held
  have hrun := hx hm held
  refine ⟨hrun.typed, hrun.settles, fun result heq a ha => ?_⟩
  cases heq
  exact hrun.result a ha

/-- A change that leaves storage and classes alone. -/
theorem aside {f : Machine → Machine} {Q : Machine → Unit → Prop} (h : m.Aside (f m))
    (hresult : Q (f m) ()) : Secures ctx m (update f) Q :=
  fun hm _ => ⟨h.typed hm, h.settles, fun _ _ => hresult⟩

/-- A change of storage. -/
theorem store {f : Machine → Machine} {Q : Machine → Unit → Prop}
    (h : m.Typed → (f m).Typed ∧ m.Settles (f m)) (hresult : Q (f m) ()) :
    Secures ctx m (update f) Q := fun hm _ => ⟨(h hm).1, (h hm).2, fun _ _ => hresult⟩

end Secures

/-- The result is some value with its parts. -/
def IsValue (m : Machine) (value : Value) : Prop := value.Typed m.realm

/-- The result is some value with its parts, and not none. -/
def HasValue (m : Machine) (value : Value) : Prop := value.Typed m.realm ∧ value.type ≠ .void

/-- What an operand stands for has the type that is read off the top of it. -/
theorem type_valueIn (m : Machine) (operand : Operand) :
    (valueIn m operand).type = typeIn m operand := by
  cases operand with
  | reference slot => exact Memory.type_load _ slot
  | temporary value isLiteral => rfl

theorem valueIn_typed (hm : m.Typed) {operand : Operand} (h : operand.Typed m) :
    IsValue m (valueIn m operand) := by
  cases operand with
  | reference slot => exact hm.memory.load h
  | temporary value isLiteral => exact h

/-- An operand without a placeholder has a type. -/
theorem type_of_voidIn?_none {operand : Operand} (h : voidIn? m operand = none) :
    typeIn m operand ≠ .void := by
  unfold voidIn? at h
  unfold typeIn
  cases operand with
  | reference slot =>
    dsimp only at h ⊢
    cases hcontent : m.env.memory.content slot with
    | atom atom => cases atom <;> simp_all [Memory.typeOf, Atom.type]
    | _ => simp [Memory.typeOf]
  | temporary value isLiteral =>
    cases value with
    | atom atom => cases atom <;> simp_all [Value.type, Atom.type]
    | _ => simp [Value.type]

theorem require_secures (operand : Operand) :
    Secures ctx m (require operand)
      fun m' found => found = operand ∧ m' = m ∧ typeIn m operand ≠ .void := by
  refine .read fun _ => ?_
  split
  · exact .raise _
  · rename_i hnone
    exact .pure ⟨rfl, rfl, type_of_voidIn?_none hnone⟩

theorem valueOf_secures {operand : Operand} (h : operand.Typed m) :
    Secures ctx m (valueOf operand) fun m' value =>
      IsValue m' value ∧ value.type = typeIn m operand :=
  .read fun hm => .pure ⟨valueIn_typed hm h, type_valueIn m operand⟩

theorem valueBy_secures {x : Eval Operand} (hx : Secures ctx m x fun m operand => operand.Typed m) :
    Secures ctx m (valueBy x) HasValue := by
  refine .bind hx fun operand m₁ _ _ hoperand => ?_
  refine .bind (require_secures operand) ?_
  rintro _ m₂ _ _ ⟨rfl, rfl, hvalue⟩
  refine (valueOf_secures hoperand).weaken ?_
  rintro m₃ value _ _ ⟨htyped, htype⟩
  exact ⟨htyped, htype ▸ hvalue⟩

/-- A name in scope stands for a slot that exists. -/
theorem lookup_typed (hm : m.Typed) {name : String} {slot : Slot}
    (h : m.env.scopes.lookup name = some slot) : (Operand.reference slot).Typed m :=
  hm.scopes slot (ScopeStack.lookup_mem h)

theorem plain_typed {atom : Atom} (h : atom.receiver? = none) (isLiteral : Bool) :
    (Operand.temporary (.atom atom) isLiteral).Typed m := Value.Plain.typed ⟨atom, rfl, h⟩

theorem resolve_typed (hm : m.Typed) (name : String) : (resolve m name).Typed m := by
  unfold resolve
  split
  · exact plain_typed rfl _
  · split
    · rename_i hslot
      exact lookup_typed hm hslot
    · split
      · exact plain_typed rfl _
      · split <;> exact plain_typed rfl _

/-- What is stored in a slot with a value has become of its type. -/
theorem stored_typed {target : DataType} {source value : Value} (hsource : IsValue m source)
    (h : stored target source = .ok value) :
    IsValue m value ∧ (target ≠ .void → value.type = target) := by
  unfold stored at h
  split at h
  · rename_i hvoid
    cases h
    exact ⟨hsource, fun hvalue => absurd (eq_of_beq hvoid) hvalue⟩
  · obtain ⟨htyped, htype⟩ := hsource.convert h
    exact ⟨htyped, fun _ => htype⟩

/-- An assignment gives its target. -/
theorem assign_secures {target : Operand} {source : Value} (htarget : target.Typed m)
    (hsource : IsValue m source) :
    Secures ctx m (assign target source) fun m' operand => operand = target ∧ operand.Typed m' := by
  cases target with
  | temporary value isLiteral => exact .raise _
  | reference slot =>
    refine .read fun hm => ?_
    refine .check fun value hstored => ?_
    obtain ⟨hvalue, htype⟩ := stored_typed hsource hstored
    have hwrite := hm.memory.write htarget hvalue htype
    have hcells := hwrite.2.cells
    refine .bind (.store (Q := fun m' _ => (Operand.reference slot).Typed m')
      (fun _ => ⟨⟨hwrite.1, ?_⟩, List.prefix_rfl, hwrite.2⟩) (Nat.lt_of_lt_of_le htarget hcells)) ?_
    · exact fun other hother => Nat.lt_of_lt_of_le (hm.scopes other hother) hcells
    · exact fun _ m' _ _ htyped => .pure ⟨rfl, htyped⟩

/-- What a slot was made for: it exists, and it has the type of a value. -/
def Made (type : DataType) (m : Machine) (slot : Slot) : Prop :=
  slot.index < m.env.memory.cells.size ∧ m.env.memory.typeAt slot = type

theorem alloc_typed (hm : m.Typed) {value : Value} (hvalue : IsValue m value) {scopes : ScopeStack}
    (hscopes : ∀ slot ∈ scopes.slots,
      slot = (m.env.memory.alloc value).1 ∨ slot ∈ m.env.scopes.slots) :
    let after : Machine := { m with env := ⟨scopes, (m.env.memory.alloc value).2⟩ }
    after.Typed ∧ m.Settles after ∧ Made value.type after (m.env.memory.alloc value).1 := by
  obtain ⟨hplaced, hholds, htype⟩ := Memory.place_typed m.env.memory value hm.memory hvalue
  have hgrows := (Memory.place_planted m.env.memory value).toGrows.trans
    (Memory.grows_push _ (m.env.memory.place value).1)
  have hnew : (m.env.memory.alloc value).1.index < (m.env.memory.alloc value).2.cells.size := by
    show _ < ((m.env.memory.place value).2.push _).2.cells.size
    rw [Memory.push_cells]
    exact Nat.lt_succ_self _
  refine ⟨⟨hplaced.push hholds, fun slot hslot => ?_⟩, ⟨List.prefix_rfl, hgrows.settles hm.memory⟩,
    hnew, ?_⟩
  · rcases hscopes slot hslot with rfl | hbefore
    · exact hnew
    · exact Nat.lt_of_lt_of_le (hm.scopes slot hbefore) hgrows.cells
  · exact (Memory.typeAt_push _ _).trans htype

theorem slots_addBinding (scopes : ScopeStack) (name : String) (slot : Slot) {other : Slot}
    (h : other ∈ (scopes.addBinding name slot).slots) : other = slot ∨ other ∈ scopes.slots := by
  obtain ⟨level, found, hbinding⟩ := ScopeStack.mem_slots.mp h
  rw [ScopeStack.bindingsAt_addBinding] at hbinding
  split at hbinding
  · rcases List.mem_cons.mp hbinding with hnew | hold
    · cases hnew
      exact .inl rfl
    · exact .inr (ScopeStack.mem_slots.mpr ⟨level, found, hold⟩)
  · exact .inr (ScopeStack.mem_slots.mpr ⟨level, found, hbinding⟩)

/-- A name is defined as a slot of the type of its value. -/
theorem define_secures (name : String) {value : Value} (hvalue : IsValue m value) :
    Secures ctx m (define name value) fun m' slot => Made value.type m' slot ∧
      m'.env.scopes = m.env.scopes.addBinding name slot ∧
        m.env.scopes.lookupCurrent name = none := by
  intro hm held
  rw [define_apply]
  cases hdefine : m.env.define name value with
  | error e => exact ⟨hm, .refl m, fun _ heq => by cases heq⟩
  | ok result =>
    obtain ⟨slot, env⟩ := result
    obtain ⟨hfree, rfl, rfl⟩ := Environment.define_ok hdefine
    obtain ⟨htyped, hsettles, hmade⟩ := alloc_typed hm hvalue
      fun other hother => slots_addBinding m.env.scopes name _ hother
    refine ⟨htyped, hsettles, fun _ heq => ?_⟩
    cases heq
    exact ⟨hmade, rfl, hfree⟩

/-- A name is bound to a slot that exists. -/
theorem bind_secures (name : String) {slot : Slot} (hslot : (Operand.reference slot).Typed m) :
    Secures ctx m (bind name slot) fun m' _ =>
      m'.env = { m.env with scopes := m.env.scopes.addBinding name slot } ∧
        m.env.scopes.lookupCurrent name = none := by
  intro hm held
  rw [bind_apply]
  cases hbind : m.env.bind name slot with
  | error e => exact ⟨hm, .refl m, fun _ heq => by cases heq⟩
  | ok env =>
    obtain ⟨hfree, rfl⟩ := Environment.bind_ok hbind
    refine ⟨⟨hm.memory, fun other hother => ?_⟩, ⟨List.prefix_rfl, .refl _⟩,
      fun _ _ => ⟨rfl, hfree⟩⟩
    rcases slots_addBinding m.env.scopes name slot hother with rfl | hold
    · exact hslot
    · exact hm.scopes other hold

/-- The start of a declaration is something a place of its type may hold. -/
theorem startOf_secures (type : DataType) (name : String) :
    Secures ctx m (startOf type name) fun m' value =>
      IsValue m' value ∧ m.classes.Admits type value.type := by
  refine .read fun _ => ?_
  cases hstart : m.classes.start type with
  | mk value faults =>
    have haside := Machine.reportAll_aside faults m
    refine .bind (.aside (Q := fun m' _ => m' = m.reportAll faults) haside rfl) ?_
    rintro _ _ - - rfl
    cases value with
    | none => exact .raise _
    | some value =>
      obtain ⟨hvalue, hadmits⟩ := ClassTable.start_typed hstart
      refine .pure ⟨?_, hadmits⟩
      exact (hvalue m.env.memory.objects.size).mono haside.settles.realm

/-- A slot that a place of this type may be, under the classes of the machine it was made on. -/
def Declared (classes : ClassTable) (type : DataType) (m : Machine) (operand : Operand) : Prop :=
  ∃ slot, operand = .reference slot ∧ slot.index < m.env.memory.cells.size ∧
    classes.Admits type (m.env.memory.typeAt slot)

/-- A declaration gives a slot for its type. -/
theorem declare_secures (type : DataType) (name : String) {initial : Option Value}
    (hinitial : ∀ value, initial = some value → HasValue m value) :
    Secures ctx m (declare type name initial) (Declared m.classes type) := by
  have hdefine (value : Value) (m₁ : Machine) (hvalue : IsValue m₁ value)
      (hadmits : m.classes.Admits type value.type) : Secures ctx m₁ (do
        return Operand.reference (← define name value)) (Declared m.classes type) := by
    refine .bind (define_secures name hvalue) fun slot m₂ _ _ hslot => .pure ?_
    exact ⟨slot, rfl, hslot.1.1, hslot.1.2 ▸ hadmits⟩
  cases initial with
  | none =>
    exact .bind (startOf_secures type name) fun value m₁ _ _ hvalue =>
      hdefine value m₁ hvalue.1 hvalue.2
  | some value =>
    obtain ⟨htyped, hvoid⟩ := hinitial value rfl
    refine .check fun converted hconvert => ?_
    obtain ⟨hconverted, rfl⟩ := htyped.convert hconvert
    refine hdefine converted m hconverted (.exact fun hnone => ?_)
    -- nothing but no value converts to `void`
    unfold Value.convert at hconvert
    split at hconvert
    · rename_i hconverts
      rw [hnone] at hconverts
      rcases DataType.convertsTo_iff.mp hconverts with heq | ⟨-, _, heq⟩ | ⟨-, heq⟩
      · exact hvoid heq
      · cases heq
      · cases heq
    · cases hconvert

/-- A value without storage gets a place of its own. -/
theorem place_secures {value : Value} (hvalue : IsValue m value) :
    Secures ctx m (place value) fun m' content => m'.env.memory.Holds content := by
  refine .read fun hm => ?_
  obtain ⟨hplaced, hholds, -⟩ := Memory.place_typed m.env.memory value hm.memory hvalue
  have hgrows := (Memory.place_planted m.env.memory value).toGrows
  refine .bind (.store (Q := fun m' _ => m'.env.memory.Holds (m.env.memory.place value).1) (fun _ =>
    ⟨⟨hplaced, ?_⟩, List.prefix_rfl, hgrows.settles hm.memory⟩) hholds) ?_
  · exact fun slot hslot => Nat.lt_of_lt_of_le (hm.scopes slot hslot) hgrows.cells
  · exact fun _ m' _ _ h => .pure h

/-- An object that exists. -/
def Exists (m : Machine) (id : ObjectId) : Prop := id < m.env.memory.objects.size

theorem objectOf_secures {operand : Operand} (h : operand.Typed m) :
    Secures ctx m (objectOf operand) fun m' found => ∀ id, found = some id → Exists m' id := by
  unfold objectOf
  split
  · refine .read fun hm => ?_
    split
    · rename_i slot _ id hcontent
      refine .pure ?_
      rintro _ ⟨⟩
      exact (hm.memory.holds slot h).object hcontent
    · exact .pure fun _ heq => by cases heq
  · refine .bind (place_secures h) fun content m' _ _ hholds => ?_
    split
    · refine .pure ?_
      rintro _ ⟨⟩
      exact hholds
    · exact .pure fun _ heq => by cases heq
  · exact .pure fun _ heq => by cases heq

theorem instantiated_secures (id : ObjectId) (member : String) :
    Secures ctx m (instantiated id member)
      fun m' object => m' = m ∧ object = m.env.memory.instanceOf id := by
  refine .read fun _ => ?_
  dsimp only
  split
  · exact .raise _
  · exact .pure ⟨rfl, rfl⟩

theorem bound_typed {callable : Callable} {id : ObjectId} (h : Exists m id) (isLiteral : Bool) :
    (Operand.temporary (.atom (.function callable (some id))) isLiteral).Typed m := by
  refine Value.Typed.atom ?_
  rintro _ ⟨⟩
  exact h

theorem field_typed (hm : m.Typed) {id : ObjectId} (hid : Exists m id) {name : String} {slot : Slot}
    (h : lookupName name (m.env.memory.instanceOf id).fields = some slot) :
    (Operand.reference slot).Typed m := hm.memory.fields id hid _ (lookupName_mem h)

theorem memberOf_secures {target : Operand} (h : target.Typed m) (name : String) :
    Secures ctx m (memberOf target name) fun m' operand => operand.Typed m' := by
  refine .bind (objectOf_secures h) fun found m₁ _ _ hfound => ?_
  cases found with
  | none => exact .read fun _ => .raise _
  | some id =>
    refine .bind (instantiated_secures id name) ?_
    rintro object m₂ hm₂ - ⟨rfl, rfl⟩
    split
    · rename_i hslot
      exact .pure (field_typed hm₂ (hfound id rfl) hslot)
    · exact .pure (bound_typed (hfound id rfl) _)
    · exact .raise _

theorem receiver_secures : Secures ctx m receiver fun m' operand => operand.Typed m' := by
  refine .read fun hm => ?_
  split
  · rename_i slot hslot
    exact .pure (lookup_typed hm hslot)
  · exact .raise _

theorem elementOf_secures (index : Int32) {items : List Slot}
    (hitems : ∀ item ∈ items, (Operand.reference item).Typed m) :
    Secures ctx m (elementOf index items) fun m' operand => operand.Typed m' := by
  refine .check fun i _ => ?_
  split
  · rename_i slot hslot
    exact .pure (hitems slot (List.mem_of_getElem? hslot))
  · exact .raise _

theorem character_secures (index : Int32) (value : Value) :
    Secures ctx m (element.character index value) fun m' operand => operand.Typed m' := by
  unfold element.character
  split
  · exact .check fun i _ => .pure (plain_typed rfl _)
  · exact .raise _

/-- An element is a slot that exists, or a character. -/
theorem element_secures {container : Operand} (h : container.Typed m) (index : Int32) :
    Secures ctx m (element container index) fun m' operand => operand.Typed m' := by
  unfold element
  dsimp only
  split
  · refine .bind (place_secures h) fun content m' _ _ hholds => ?_
    split
    · exact elementOf_secures index fun item hitem => (hholds.1 item hitem).1
    · exact elementOf_secures index (List.forall_mem_nil _)
  · refine .bind (place_secures h) fun content m' _ _ hholds => ?_
    split
    · exact elementOf_secures index hholds
    · exact elementOf_secures index (List.forall_mem_nil _)
  · exact character_secures index _
  · rename_i slot
    refine .read fun hm => ?_
    have hholds := hm.memory.holds slot h
    split
    · rename_i hcontent
      rw [hcontent] at hholds
      exact elementOf_secures index fun item hitem => (hholds.1 item hitem).1
    · rename_i hcontent
      rw [hcontent] at hholds
      exact elementOf_secures index hholds
    · exact .bind (valueOf_secures h) fun value m' _ _ _ => character_secures index value

end Eval

end BuildScript
