import BuildScript.Proofs.Storage.Paths

/-!
Values have no storage in common: an assignment through a path changes what the path leads to and
nothing that lies apart from it. Variables that share storage are by-reference parameters and
receivers of running calls.
-/

namespace BuildScript

open Relation (ReflTransGen TransGen)

namespace Memory

variable {memory : Memory} {slot part target : Slot} {operand next last : Operand} {step : PathStep}
  {steps : List PathStep}

theorem itemAt_some {position : Int32} {items : List Slot} (h : itemAt position items = some part) :
    0 ≤ position.toInt ∧ items[position.toInt.toNat]? = some part := by
  unfold itemAt Integer.toIndex at h
  split at h
  · rename_i i hindex
    split at hindex
    · rename_i hrange
      cases hindex
      exact ⟨hrange.1, h⟩
    · cases hindex
  · cases h

theorem item_reference {position : Int32} {items : List Slot}
    (h : (itemAt position items).map Operand.reference = some (.reference part)) :
    0 ≤ position.toInt ∧ items[position.toInt.toNat]? = some part := by
  obtain ⟨found, hfound, hsame⟩ := Option.map_eq_some_iff.mp h
  cases hsame
  exact itemAt_some hfound

/-- A step from a reference to another leads to a field of the object or to an element. -/
theorem take_reference (h : memory.take (.reference slot) step = some (.reference part)) :
    (∃ id name, ∃ position : Nat, step = .field name ∧ memory.content slot = .object id ∧
      (memory.instanceOf id).fields[position]? = some (name, part)) ∨
    ∃ position, step = .index position ∧ 0 ≤ position.toInt ∧
      (memory.content slot).items[position.toInt.toNat]? = some part := by
  cases step with
  | field name =>
    simp only [take] at h
    split at h
    · rename_i id hcontent
      unfold member at h
      split at h
      · cases h
      · split at h
        · rename_i found hfound
          cases h
          obtain ⟨position, hposition⟩ := List.mem_iff_getElem?.mp (lookupName_mem hfound)
          exact .inl ⟨id, name, position, rfl, hcontent, hposition⟩
        · cases h
        · cases h
    · cases h
  | index position =>
    simp only [take] at h
    split at h
    · rename_i hcontent
      rw [hcontent]
      exact .inr ⟨position, rfl, item_reference h⟩
    · rename_i hcontent
      rw [hcontent]
      exact .inr ⟨position, rfl, item_reference h⟩
    · unfold character at h
      split at h <;> cases h
    · cases h

theorem take_part (h : memory.take (.reference slot) step = some (.reference part)) :
    memory.Part slot part := by
  unfold Part
  rcases take_reference h with ⟨id, name, position, -, hcontent, hfield⟩ | ⟨position, -, -, hitem⟩
  · rw [hcontent]
    exact List.mem_map_of_mem (List.mem_of_getElem? hfield)
  · cases hcontent : memory.content slot with
    | array type items | list items =>
      rw [hcontent] at hitem
      exact List.mem_of_getElem? hitem
    | atom atom =>
      rw [hcontent] at hitem
      cases hitem
    | object id =>
      rw [hcontent] at hitem
      cases hitem

/-- From a value without storage no step leads to storage. -/
theorem take_temporary {value : Value} {isLiteral : Bool} :
    memory.take (.temporary value isLiteral) step ≠ some (.reference part) := by
  intro h
  unfold take at h
  split at h
  · rename_i hoperand
    cases hoperand
  · rename_i hoperand
    cases hoperand
  · unfold character at h
    split at h <;> cases h
  · cases h

/-- A step that leads to storage comes from storage. -/
theorem follow_reference (h : memory.follow operand steps = some (.reference target)) :
    ∃ slot, operand = .reference slot ∧ memory.Inside slot target := by
  induction steps generalizing operand with
  | nil =>
    cases h
    exact ⟨target, rfl, .refl⟩
  | cons step rest ih =>
    obtain ⟨next, htake, hrest⟩ := Option.bind_eq_some_iff.mp h
    obtain ⟨part, rfl, hinside⟩ := ih hrest
    cases operand with
    | temporary value isLiteral => exact absurd htake take_temporary
    | reference slot => exact ⟨slot, rfl, .head (take_part htake) hinside⟩

/-- No storage inside the operand is the target. -/
def Clear (memory : Memory) (target : Slot) (operand : Operand) : Prop :=
  ∀ slot, operand = .reference slot → memory.Solid slot ∧ ¬memory.Inside slot target

theorem Clear.take (h : memory.Clear target operand)
    (htake : memory.take operand step = some next) : memory.Clear target next := by
  rintro part rfl
  cases operand with
  | temporary value isLiteral => exact absurd htake take_temporary
  | reference slot =>
    obtain ⟨hsolid, houtside⟩ := h slot rfl
    have hpart := take_part htake
    exact ⟨hsolid.part hpart, fun hinside => houtside (.head hpart hinside)⟩

theorem take_congr {a b : Memory}
    (h : ∀ slot, operand = .reference slot → b.content slot = a.content slot ∧
      ∀ id, a.content slot = .object id → b.instanceOf id = a.instanceOf id) :
    b.take operand step = a.take operand step := by
  cases operand with
  | temporary value isLiteral =>
    cases value with
    | atom atom => cases atom <;> cases step <;> rfl
    | _ => cases step <;> rfl
  | reference slot =>
    obtain ⟨hcontent, hobject⟩ := h slot rfl
    cases step with
    | field name =>
      simp only [Memory.take, hcontent]
      cases hfound : a.content slot with
      | object id =>
        dsimp only
        rw [hobject id hfound]
      | _ => rfl
    | index position => simp only [Memory.take, hcontent]

/-- A step from another slot than the one written leads where it led. -/
theorem take_write (value : Value)
    (h : ∀ slot, operand = .reference slot → memory.Solid slot ∧ slot ≠ target) :
    (memory.write target value).take operand step = memory.take operand step := by
  apply take_congr
  intro slot hslot
  obtain ⟨hsolid, hne⟩ := h slot hslot
  exact ⟨content_write_of_ne hsolid.bound hne value,
    fun id hid => instanceOf_write (hsolid.object hid) target value⟩

/-- What has nothing to do with the target leads where it led. -/
theorem Clear.follow (h : memory.Clear target operand) (value : Value)
    (hfollow : memory.follow operand steps = some last) :
    (memory.write target value).follow operand steps = some last ∧ memory.Clear target last := by
  induction steps generalizing operand with
  | nil =>
    cases hfollow
    exact ⟨rfl, h⟩
  | cons step rest ih =>
    obtain ⟨next, htake, hrest⟩ := Option.bind_eq_some_iff.mp hfollow
    have hsame : (memory.write target value).take operand step = some next := by
      rw [take_write value, htake]
      intro slot hslot
      obtain ⟨hsolid, houtside⟩ := h slot hslot
      refine ⟨hsolid, ?_⟩
      rintro rfl
      exact houtside .refl
    obtain ⟨hafter, hclear⟩ := ih (h.take htake) hrest
    refine ⟨?_, hclear⟩
    unfold Memory.follow
    rw [hsame]
    exact hafter

/-- A slot that leads to the target by a step is not the target. -/
theorem Solid.ne_of_step (h : memory.Solid slot)
    (htake : memory.take (.reference slot) step = some (.reference part))
    (hinside : memory.Inside part target) : slot ≠ target := by
  rintro rfl
  exact h.irrefl (TransGen.head' (take_part htake) hinside)

/-- The steps to the target still lead to it. -/
theorem Solid.follow_write (h : memory.Solid slot) (value : Value)
    (hfollow : memory.follow (.reference slot) steps = some (.reference target)) :
    (memory.write target value).follow (.reference slot) steps = some (.reference target) := by
  induction steps generalizing slot with
  | nil => exact hfollow
  | cons step rest ih =>
    obtain ⟨next, htake, hrest⟩ := Option.bind_eq_some_iff.mp hfollow
    obtain ⟨part, rfl, hinside⟩ := follow_reference hrest
    have hsame : (memory.write target value).take (.reference slot) step = some (.reference part) := by
      rw [take_write value, htake]
      rintro _ ⟨⟩
      exact ⟨h, h.ne_of_step htake hinside⟩
    unfold Memory.follow
    rw [hsame]
    exact ih (h.part (take_part htake)) hrest

end Memory

namespace Ownership

open Memory (take_reference take_part take_write follow_reference)

variable {o : Ownership} {memory : Memory} {slot target : Slot}

/-- Different steps lead to different parts. -/
theorem Describes.steps_apart (h : o.Describes memory) {step step' : PathStep} {part part' : Slot}
    (htake : memory.take (.reference slot) step = some (.reference part))
    (htake' : memory.take (.reference slot) step' = some (.reference part')) (hne : step ≠ step') :
    part ≠ part' := by
  rintro rfl
  have hitems := (h.cell slot).items
  rcases take_reference htake with ⟨id, name, position, rfl, hcontent, hfield⟩ |
      ⟨position, rfl, hsign, hitem⟩
  · have howner := (h.fields id position name part hfield).1
    rcases take_reference htake' with ⟨id', name', position', rfl, hcontent', hfield'⟩ |
        ⟨position', rfl, hsign', hitem'⟩
    · rw [(h.fields id' position' name' part hfield').1] at howner
      cases howner
      rw [hfield] at hfield'
      cases hfield'
      exact hne rfl
    · rw [(hitems _ part hitem').1] at howner
      cases howner
  · have howner := (hitems _ part hitem).1
    rcases take_reference htake' with ⟨id', name', position', rfl, hcontent', hfield'⟩ |
        ⟨position', rfl, hsign', hitem'⟩
    · rw [(h.fields id' position' name' part hfield').1] at howner
      cases howner
    · rw [(hitems _ part hitem').1] at howner
      have hsame : position.toInt = position'.toInt := by
        have hnat : position'.toInt.toNat = position.toInt.toNat := (Owner.item.inj howner).2
        omega
      exact hne (congrArg PathStep.index (Int32.toInt_inj.mp hsame))

/-- Steps of which neither are a beginning of the others part at some slot. What the second lead to
lies apart from what the first lead to. -/
theorem Describes.diverge (h : o.Describes memory) {steps steps' : List PathStep} {last : Operand}
    (hsolid : memory.Solid slot)
    (hfollow : memory.follow (.reference slot) steps = some (.reference target))
    (hfollow' : memory.follow (.reference slot) steps' = some last)
    (hbegins : ¬steps <+: steps') (hbegins' : ¬steps' <+: steps) (value : Value) :
    (memory.write target value).follow (.reference slot) steps' = some last ∧
      memory.Clear target last := by
  induction steps generalizing slot steps' with
  | nil => exact absurd List.nil_prefix hbegins
  | cons step rest ih =>
    cases steps' with
    | nil => exact absurd List.nil_prefix hbegins'
    | cons step' rest' =>
      obtain ⟨next, htake, hrest⟩ := Option.bind_eq_some_iff.mp hfollow
      obtain ⟨next', htake', hrest'⟩ := Option.bind_eq_some_iff.mp hfollow'
      obtain ⟨part, rfl, hinside⟩ := follow_reference hrest
      have hne := hsolid.ne_of_step htake hinside
      have hafter : (memory.write target value).take (.reference slot) step' = some next' := by
        rw [take_write value, htake']
        rintro _ ⟨⟩
        exact ⟨hsolid, hne⟩
      have hgoal : (memory.write target value).follow next' rest' = some last ∧
          memory.Clear target last := by
        by_cases hstep : step = step'
        · subst hstep
          rw [htake] at htake'
          cases htake'
          apply ih (hsolid.part (take_part htake)) hrest hrest'
          · intro hbegin
            exact hbegins (List.cons_prefix_cons.mpr ⟨rfl, hbegin⟩)
          · intro hbegin
            exact hbegins' (List.cons_prefix_cons.mpr ⟨rfl, hbegin⟩)
        · have hclear : memory.Clear target next' := by
            rintro part' rfl
            have hpart := take_part htake
            have hpart' := take_part htake'
            have hdiffer := h.steps_apart htake htake' hstep
            exact ⟨hsolid.part hpart', h.parts_apart hsolid hpart hpart' hdiffer hinside⟩
          exact hclear.follow value hrest'
      refine ⟨?_, hgoal.2⟩
      unfold Memory.follow
      rw [hafter]
      exact hgoal.1

end Ownership

open Eval (assignWith evalExpr stored typeIn valueIn andThen_apply andThen_apply_ok)
open Environment (Tidy)

/-- A value that is required is the value itself. -/
theorem Eval.valueBy_pure {value found : Value} {ctx : Context} {m m' : Machine}
    (h : valueBy (pure (.ofValue value)) ctx m = (.ok found, m')) : found = value ∧ m' = m := by
  obtain ⟨operand, between, hfirst, hrest⟩ := andThen_ok h
  cases hfirst
  obtain ⟨required, between, hrequire, hvalue⟩ := andThen_ok hrest
  have hleads : Leads ctx (· = m) (require (.ofValue value)) fun required after =>
      required = .ofValue value ∧ after = m := require_leads (.ofValue value)
  obtain ⟨rfl, rfl⟩ := hleads ctx.held m required between rfl hrequire
  cases hvalue
  exact ⟨rfl, rfl⟩

/-- An assignment that succeeds stores the value, converted to the type of the target. -/
theorem Eval.assignWith_ok {target : Eval Operand} {slot : Slot} {value : Value} {ctx : Context}
    {m m' : Machine} {result : Operand} (htarget : target ctx m = (.ok (.reference slot), m))
    (h : assignWith .assign target (pure (.ofValue value)) ctx m = (.ok result, m')) :
    ∃ converted, stored (typeIn m (.reference slot)) value = .ok converted ∧
      m' = { m with env := m.env.write slot converted } := by
  unfold assignWith at h
  rw [andThen_apply_ok htarget] at h
  have hsteps : (holding [.slot slot] (valueBy (pure (.ofValue value))) >>=
      assignSource .assign (.reference slot)) ctx m = (.ok result, m') := h
  obtain ⟨source, between, hsource, hassign⟩ := andThen_ok hsteps
  obtain ⟨rfl, rfl⟩ := valueBy_pure hsource
  cases hstored : stored (typeIn between (.reference slot)) source with
  | error e =>
    have hfail : assignSource .assign (.reference slot) source ctx between =
        (.error (.eval e), between) := by
      simp only [assignSource, Operator.compoundBase?, assign, andThen_apply, machine_apply,
        liftM_eq, ofExcept_apply, hstored, Except.mapError]
    rw [hfail] at hassign
    cases hassign
  | ok converted =>
    have hwrite : assignSource .assign (.reference slot) source ctx between =
        (.ok (.reference slot), { between with env := between.env.write slot converted }) := by
      simp only [assignSource, Operator.compoundBase?, assign, andThen_apply, machine_apply,
        liftM_eq, ofExcept_apply, hstored, Except.mapError, update_apply, pure_apply]
    rw [hwrite] at hassign
    cases hassign
    exact ⟨converted, rfl, rfl⟩

namespace Machine

/-- The first variable shares storage of the second: it is a by-reference parameter bound to the
slot of the second or to one inside it, or it is a receiver, or a by-reference parameter bound to
one, and its object lies in the second. -/
def Shares (roles : Roles) (m : Machine) (x y : Variable) : Prop :=
  ∃ slot other, m.env.scopes.slotOf x = some slot ∧ m.env.scopes.slotOf y = some other ∧
    (roles x = some .parameter ∧ m.env.memory.Inside other slot ∨
      roles x ≠ none ∧ ∃ id holder, m.env.memory.content slot = .object id ∧
        m.env.memory.Inside other holder ∧ m.env.memory.content holder = .object id)

/-- The first variable is a by-reference parameter bound to the slot of the second or to one inside
it, or it is a receiver whose object lies in the second. -/
def SharesDirectly (roles : Roles) (m : Machine) (x y : Variable) : Prop :=
  ∃ slot other, m.env.scopes.slotOf x = some slot ∧ m.env.scopes.slotOf y = some other ∧
    (roles x = some .parameter ∧ m.env.memory.Inside other slot ∨
      roles x = some .receiver ∧ ∃ id holder, m.env.memory.content slot = .object id ∧
        m.env.memory.Inside other holder ∧ m.env.memory.content holder = .object id)

/-- The paths start at variables that share nothing, or part on the way from the same variable. -/
def Apart (shares : Variable → Variable → Prop) (p q : Path) : Prop :=
  p.root ≠ q.root ∧ ¬shares p.root q.root ∧ ¬shares q.root p.root ∨
    p.root = q.root ∧ ¬p.steps <+: q.steps ∧ ¬q.steps <+: p.steps

variable {base : Nat} {roles : Roles} {held : List Anchor} {m m' : Machine} {ctx : Context}
  {slot other target : Slot} {x y : Variable}

/-- The slots of variables that share nothing do not lie inside one another. -/
theorem not_nested {o : Ownership} (h : Environment.Fits base roles o m.env)
    (hx : m.env.scopes.slotOf x = some slot) (hy : m.env.scopes.slotOf y = some other) (hne : x ≠ y)
    (hxy : ¬m.Shares roles x y) (hyx : ¬m.Shares roles y x) : ¬m.env.memory.Inside slot other := by
  intro hinside
  -- A variable that is no parameter has a slot that is no part of anything.
  have hroot (howner : (∃ z, o.owner other = .own z) ∨ ∃ z, o.owner other = .receiver z) :
      slot = other ∧ roles x ≠ some .parameter := by
    obtain rfl := h.describes.root howner hinside
    exact ⟨rfl, fun hrole => hxy ⟨slot, slot, hx, hy, .inl ⟨hrole, .refl⟩⟩⟩
  cases hrole : roles y with
  | none =>
    have howner := (h.own y other hy hrole).1
    obtain ⟨rfl, hparameter⟩ := hroot (.inl ⟨y, howner⟩)
    cases hother : roles x with
    | none =>
      rw [(h.own x slot hx hother).1] at howner
      exact hne (Owner.own.inj howner)
    | some role =>
      cases role with
      | parameter => exact hparameter hother
      | receiver =>
        rw [(h.receiver x slot hx hother).1] at howner
        cases howner
  | some role =>
    cases role with
    | parameter => exact hyx ⟨other, slot, hy, hx, .inl ⟨hrole, hinside⟩⟩
    | receiver =>
      have howner := (h.receiver y other hy hrole).1
      obtain ⟨rfl, hparameter⟩ := hroot (.inr ⟨y, howner⟩)
      cases hother : roles x with
      | none =>
        rw [(h.own x slot hx hother).1] at howner
        cases howner
      | some role =>
        cases role with
        | parameter => exact hparameter hother
        | receiver =>
          rw [(h.receiver x slot hx hother).1] at howner
          exact hne (Owner.receiver.inj howner)

/-- Only a variable that plays a role has the slot of a receiver. -/
theorem not_doubles {o : Ownership} (h : Environment.Fits base roles o m.env)
    (hx : m.env.scopes.slotOf x = some slot) (hy : m.env.scopes.slotOf y = some other)
    (hxy : ¬m.Shares roles x y) : ¬o.Doubles m.env.memory slot other := by
  rintro ⟨⟨z, hreceiver⟩, id, holder, hcontent, hinside, hholder⟩
  apply hxy
  refine ⟨slot, other, hx, hy, .inr ⟨?_, id, holder, hcontent, hinside, hholder⟩⟩
  intro hrole
  have howner := (h.own x slot hx hrole).1
  rw [hreceiver] at howner
  cases howner

/-- Variables that share nothing have nothing inside them in common. -/
theorem apart_roots (h : Tidy base roles m.env) (hx : m.env.scopes.slotOf x = some slot)
    (hy : m.env.scopes.slotOf y = some other) (hne : x ≠ y) (hxy : ¬m.Shares roles x y)
    (hyx : ¬m.Shares roles y x) (hinside : m.env.memory.Inside slot target) :
    ¬m.env.memory.Inside other target := by
  intro hother
  obtain ⟨o, hfits⟩ := h
  rcases hfits.describes.meet hinside hother with hmeet | hmeet | hmeet | hmeet
  · exact not_nested hfits hx hy hne hxy hyx hmeet
  · exact not_nested hfits hy hx (Ne.symm hne) hyx hxy hmeet
  · exact not_doubles hfits hx hy hxy hmeet
  · exact not_doubles hfits hy hx hyx hmeet

/-- In a state of a running script, an assignment through a path makes the path have the value,
converted to the type of what it held unless that was nothing. Every path apart from it leads where
it led and has the value it had. -/
theorem Reached.assignment_keeps_apart (h : m.Reached base roles held) {p : Path}
    (hvisible : p.Visible m) {value : Value} {result : Operand}
    (htarget : evalExpr p.expr ctx m = (.ok (.reference target), m))
    (hassign : assignWith .assign (evalExpr p.expr) (pure (.ofValue value)) ctx m =
      (.ok result, m')) :
    (∃ converted, stored (typeIn m (.reference target)) value = .ok converted ∧
      evalExpr p.expr ctx m' = (.ok (.reference target), m') ∧
        valueIn m' (.reference target) = converted) ∧
    ∀ (q : Path) (operand : Operand), Apart (m.Shares roles) p q →
      q.eval ctx m = (.ok operand, m) →
        q.eval ctx m' = (.ok operand, m') ∧ valueIn m' operand = valueIn m operand := by
  obtain ⟨converted, hstored, rfl⟩ := Eval.assignWith_ok htarget hassign
  rw [hvisible.evalExpr_eq] at htarget
  obtain ⟨-, slot, hslot, hfollow⟩ := Path.eval_ok htarget
  obtain ⟨_, ⟨⟩, hinside⟩ := Memory.follow_reference hfollow
  obtain ⟨htidy, hupholds⟩ := h.inOrder
  have hsolid : m.env.memory.Solid slot := hupholds.sound slot (ScopeStack.slotOf_mem hslot)
  have heval {q : Path} {start : Slot} {operand : Operand}
      (hstart : m.env.scopes.slotOf q.root = some start)
      (hafter : (m.env.memory.write target converted).follow (.reference start) q.steps = some operand) :
      q.eval ctx { m with env := m.env.write target converted } =
        (.ok operand, { m with env := m.env.write target converted }) := by
    have hgives : Path.Gives q.eval ctx { m with env := m.env.write target converted }
        ((m.env.memory.write target converted).follow (.reference start) q.steps) :=
      Path.eval_gives hstart
    rw [hafter] at hgives
    exact hgives
  constructor
  · have hafter : p.Visible { m with env := m.env.write target converted } := hvisible
    refine ⟨converted, hstored, ?_, ?_⟩
    · rw [hafter.evalExpr_eq]
      exact heval hslot (hsolid.follow_write converted hfollow)
    · exact Memory.load_write_self (hsolid.inside hinside).bound converted
  · intro q operand hapart hq
    obtain ⟨-, start, hstart, hfollow'⟩ := Path.eval_ok hq
    have hclear : (m.env.memory.write target converted).follow (.reference start) q.steps =
        some operand ∧ m.env.memory.Clear target operand := by
      rcases hapart with ⟨hne, hpq, hqp⟩ | ⟨hroot, hbegins, hbegins'⟩
      · have houtside := apart_roots htidy hslot hstart hne hpq hqp hinside
        have hstand := hupholds.sound start (ScopeStack.slotOf_mem hstart)
        have hroot : m.env.memory.Clear target (.reference start) := by
          rintro _ ⟨⟩
          exact ⟨hstand, houtside⟩
        exact hroot.follow converted hfollow'
      · rw [← hroot, hslot] at hstart
        cases hstart
        obtain ⟨o, hfits⟩ := htidy
        exact hfits.describes.diverge hsolid hfollow hfollow' hbegins hbegins' converted
    refine ⟨heval hstart hclear.1, ?_⟩
    cases operand with
    | temporary value isLiteral => rfl
    | reference slot =>
      obtain ⟨hsolid, houtside⟩ := hclear.2 slot rfl
      exact hsolid.load_write houtside converted

/-- Two numbers in an array, which is a variable. -/
def numbers : Machine :=
  (evalExpr (.binary .assign (.declare (.array .int) "a")
      (.arrayLiteral [.literal (.int 1), .literal (.int 2)])) (Session.context .none 1 [])
    (.initial .standard (.shelf ⟨[]⟩))).2

theorem numbers_reached : numbers.Reached 1 .empty [] :=
  .evaluated (.start .standard (.shelf ⟨[]⟩)) _ 1 []

/-- `a[0] = 7` leaves `a[1]` alone. -/
theorem element_keeps_other :
    let ctx := Session.context .none 1 []
    let p : Path := ⟨⟨0, "a"⟩, [.index 0]⟩
    let q : Path := ⟨⟨0, "a"⟩, [.index 1]⟩
    let after := (assignWith .assign (evalExpr p.expr) (pure (.ofValue (.int 7))) ctx numbers).2
    p.Visible numbers ∧ Apart (numbers.Shares .empty) p q ∧
      valueIn after (.reference ⟨0⟩) = .int 7 ∧ valueIn after (.reference ⟨1⟩) = .int 2 := by
  intro ctx p q after
  have hvisible : p.Visible numbers := ⟨by decide, ⟨2⟩, rfl, rfl⟩
  have hapart : Apart (numbers.Shares .empty) p q := .inr ⟨rfl, by decide, by decide⟩
  have hassign : assignWith .assign (evalExpr p.expr) (pure (.ofValue (.int 7))) ctx numbers =
      (.ok (.reference ⟨0⟩), after) := rfl
  have htarget : evalExpr p.expr ctx numbers = (.ok (.reference ⟨0⟩), numbers) := rfl
  obtain ⟨⟨converted, hstored, -, hvalue⟩, hkept⟩ :=
    numbers_reached.assignment_keeps_apart hvisible htarget hassign
  have hseven : Value.int 7 = converted := Except.ok.inj hstored
  obtain ⟨-, hother⟩ := hkept q (.reference ⟨1⟩) hapart rfl
  exact ⟨hvisible, hapart, hvalue.trans hseven.symm, hother⟩

/-- A class with one field is known. -/
def classKnown : Machine :=
  { initial .standard (.shelf ⟨[]⟩) with
    classes := ClassTable.builtin ++ [⟨9, "A", [⟨.int, "x"⟩], []⟩] }

/-- A variable holds an object of the class, and a method of the object runs. -/
def methodRuns : Machine :=
  (Eval.bindCall (some 0) [] (Session.context .none 1 []) (Eval.entered ""
    (evalExpr (.declare (.object "A") "o") (Session.context .none 1 []) classKnown).2)).2

/-- The method has called a function and handed it `this` by reference. -/
def receiverHanded : Machine :=
  (Eval.bindCall none [("a", .shared ⟨2⟩)] (Session.context .none 1 [])
    (Eval.entered "" methodRuns)).2

/-- The roles of `this` and of the parameter. -/
def handedRoles : Roles := (Roles.empty.set ⟨1, "this"⟩ .receiver).set ⟨2, "a"⟩ .parameter

theorem receiverHanded_reached : receiverHanded.Reached 3 handedRoles [.slot ⟨2⟩] := by
  have hknown : classKnown.Reached 1 .empty [] := .aside (.start .standard (.shelf ⟨[]⟩)) rfl
  have hobject := hknown.evaluated (.declare (.object "A") "o") 1 []
  have hmethod : methodRuns.Reached 2 (Roles.empty.set ⟨1, "this"⟩ .receiver) [] := by
    have hbind : Eval.bindCall (some 0) [] (Session.context .none 1 []) (Eval.entered ""
        (evalExpr (.declare (.object "A") "o") (Session.context .none 1 []) classKnown).2) =
          (.ok (), methodRuns) := rfl
    exact hobject.called "" (by rintro _ ⟨⟩; rfl) (fun _ _ h => absurd h List.not_mem_nil) hbind
  have hthis : evalExpr (.identifier "this") (Session.context .none 1 []) methodRuns =
      (.ok (.reference ⟨2⟩), methodRuns) := rfl
  have hbind : Eval.bindCall none [("a", .shared ⟨2⟩)] (Session.context .none 1 [])
      (Eval.entered "" methodRuns) = (.ok (), receiverHanded) := rfl
  refine (hmethod.referred hthis).called "" (by rintro _ ⟨⟩) ?_ hbind
  rintro name slot hmem
  obtain ⟨-, hslot⟩ := Prod.mk.inj (List.mem_singleton.mp hmem)
  cases hslot
  exact List.mem_singleton_self _

/-- A parameter that `this` was handed to shares the object of the method, though it is bound
neither to the variable of the object nor to a slot inside it. -/
theorem receiver_handed_on_shares :
    ¬∀ {base : Nat} {roles : Roles} {held : List Anchor} {m m' : Machine} {ctx : Context}
        {target : Slot} {p : Path} {value : Value} {result : Operand},
      m.Reached base roles held → p.Visible m →
      evalExpr p.expr ctx m = (.ok (.reference target), m) →
      assignWith .assign (evalExpr p.expr) (pure (.ofValue value)) ctx m = (.ok result, m') →
      ∀ (q : Path) (operand : Operand), Apart (m.SharesDirectly roles) p q →
        q.eval ctx m = (.ok operand, m) →
          q.eval ctx m' = (.ok operand, m') ∧ valueIn m' operand = valueIn m operand := by
  intro hclaim
  let ctx := Session.context .none 1 []
  let p : Path := ⟨⟨2, "a"⟩, [.field "x"]⟩
  let q : Path := ⟨⟨0, "o"⟩, [.field "x"]⟩
  have hvisible : p.Visible receiverHanded := ⟨by decide, ⟨2⟩, rfl, rfl⟩
  have hassign : assignWith .assign (evalExpr p.expr) (pure (.ofValue (.int 5))) ctx receiverHanded =
      (.ok (.reference ⟨0⟩), { receiverHanded with env := receiverHanded.env.write ⟨0⟩ (.int 5) }) := rfl
  have hapart : Apart (receiverHanded.SharesDirectly handedRoles) p q := by
    refine .inl ⟨by decide, ?_, ?_⟩
    · rintro ⟨slot, other, hslot, hother, ⟨-, hinside⟩ | ⟨hrole, -⟩⟩
      · cases hslot
        cases hother
        rcases hinside.cases_head with hsame | ⟨part, hpart, hrest⟩
        · cases hsame
        · obtain rfl : part = ⟨0⟩ := List.mem_singleton.mp hpart
          rcases hrest.cases_head with hsame | ⟨part, hpart, -⟩
          · cases hsame
          · cases hpart
      · cases hrole
    · rintro ⟨slot, other, hslot, hother, ⟨hrole, -⟩ | ⟨hrole, -⟩⟩
      · cases hrole
      · cases hrole
  obtain ⟨-, hvalue⟩ := hclaim receiverHanded_reached hvisible rfl hassign q (.reference ⟨0⟩) hapart rfl
  cases hvalue

end Machine

end BuildScript
