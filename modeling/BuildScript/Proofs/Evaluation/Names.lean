import BuildScript.Proofs.Evaluation.Relations
import BuildScript.Proofs.Scopes.Levels

/-!
Names in expressions: what evaluating, reading and assigning a name comes to once it is known what
the name stands for, and what the member of an object is.
-/

namespace BuildScript

namespace ScopeStack

variable {stack : ScopeStack} {name : String} {slot : Slot}

/-- The innermost scope is searched first. -/
theorem lookup_current (h : stack.lookupCurrent name = some slot) :
    stack.lookup name = some slot := by
  obtain ⟨inner, global⟩ := stack
  cases inner with
  | nil => exact h
  | cons scope rest =>
    have hscope : lookupName name scope.bindings = some slot := h
    show lookupFrom global name (scope :: rest) = some slot
    rw [lookupFrom, hscope]

/-- A new name takes no other's place. -/
theorem lookup_addBinding {other : String} (h : other ≠ name) (slot : Slot) :
    (stack.addBinding name slot).lookup other = stack.lookup other := by
  obtain ⟨inner, global⟩ := stack
  cases inner with
  | nil =>
    show lookupName other ((name, slot) :: global) = lookupName other global
    rw [lookupName_cons, if_neg h.symm]
  | cons scope rest =>
    show lookupFrom global other ({ scope with bindings := (name, slot) :: scope.bindings } :: rest) =
      lookupFrom global other (scope :: rest)
    rw [lookupFrom, lookupFrom, lookupName_cons, if_neg h.symm]

end ScopeStack

namespace Eval

variable {ctx : Context} {m after : Machine} {name : String} {slot : Slot} {op : Operator}

/-- A name that is no keyword stands for what the nearest scope binds it to. -/
theorem resolve_bound (hkeyword : DataType.ofKeyword? name = none)
    (hbound : m.env.scopes.lookup name = some slot) : resolve m name = .reference slot := by
  unfold resolve
  rw [hkeyword, hbound]

theorem bound_of_resolve (h : resolve m name = .reference slot) :
    DataType.ofKeyword? name = none ∧ m.env.scopes.lookup name = some slot := by
  unfold resolve at h
  split at h
  · cases h
  · rename_i hkeyword
    split at h
    · rename_i found hfound
      cases h
      exact ⟨hkeyword, hfound⟩
    · split at h
      · cases h
      · split at h <;> cases h

theorem identifier_apply (h : resolve m name = .reference slot) (ctx : Context) :
    evalExpr (.identifier name) ctx m = (.ok (.reference slot), m) := by
  rw [evalExpr, andThen_apply, machine_apply]
  dsimp only
  rw [h]
  rfl

theorem require_ok {operand : Operand} (h : voidIn? m operand = none) :
    require operand ctx m = (.ok operand, m) := by
  unfold require
  rw [andThen_apply, machine_apply]
  dsimp only
  rw [h]
  rfl

theorem require_inv {operand required : Operand}
    (h : require operand ctx m = (.ok required, after)) : required = operand ∧ after = m := by
  unfold require at h
  rw [andThen_apply_ok (machine_apply ctx m)] at h
  cases hvoid : voidIn? m operand with
  | none =>
    rw [hvoid] at h
    cases h
    exact ⟨rfl, rfl⟩
  | some placeholder =>
    rw [hvoid] at h
    cases h

theorem valueBy_ok {x : Eval Operand} {operand : Operand} (hrun : x ctx m = (.ok operand, after))
    (hvalue : voidIn? after operand = none) :
    valueBy x ctx m = (.ok (valueIn after operand), after) := by
  unfold valueBy
  rw [andThen_apply_ok hrun, andThen_apply_ok (require_ok hvalue)]
  rfl

theorem valueBy_inv {x : Eval Operand} {value : Value}
    (h : valueBy x ctx m = (.ok value, after)) :
    ∃ operand, x ctx m = (.ok operand, after) ∧ value = valueIn after operand := by
  obtain ⟨operand, between, hrun, hrest⟩ := andThen_ok h
  obtain ⟨required, between', hrequire, hvalue⟩ := andThen_ok hrest
  cases hvalue
  obtain ⟨rfl, rfl⟩ := require_inv hrequire
  exact ⟨_, hrun, rfl⟩

theorem valueBy_congr {x y : Eval Operand} (h : x ctx m = y ctx m) :
    valueBy x ctx m = valueBy y ctx m := by
  unfold valueBy
  rw [andThen_apply, andThen_apply, h]

theorem evalExpr_call (name : String) (args : List Expr) :
    evalExpr (.call (.identifier name) args) =
      callWith (evalExpr (.identifier name)) (evalArguments args) := by
  conv =>
    lhs
    unfold evalExpr

theorem evalExpr_callMember (object : Expr) (name : String) (args : List Expr) :
    evalExpr (.call (.member object name) args) =
      callMemberWith (evalExpr object) name (evalArguments args) := by
  conv =>
    lhs
    unfold evalExpr

theorem evalExpr_assignment (hop : op.isAssignment = true) {target : Expr}
    (htarget : ∀ type name, target ≠ .declare type name) (value : Expr) :
    evalExpr (.binary op target value) = assignWith op (evalExpr target) (evalExpr value) := by
  conv =>
    lhs
    unfold evalExpr
  cases target with
  | declare type name => exact absurd rfl (htarget type name)
  | _ => cases op <;> first | rfl | cases hop

/-- A variable is assigned what the other side gives, which is evaluated while the slot is held. -/
theorem assignment_apply (h : resolve m name = .reference slot) (hop : op.isAssignment = true)
    (value : Expr) (ctx : Context) :
    evalExpr (.binary op (.identifier name) value) ctx m =
      (holding [.slot slot] (valueBy (evalExpr value)) >>= assignSource op (.reference slot))
        ctx m := by
  rw [evalExpr_assignment hop fun _ _ h => by cases h]
  unfold assignWith
  rw [andThen_apply, identifier_apply h]
  rfl

end Eval

/-- The member of an object: a field first, then a method, which comes bound to the object. -/
def Instance.member (object : Instance) (id : ObjectId) (name : String) :
    Except EvalError Operand :=
  if object.className.isEmpty then .error (.uninstantiatedObject name)
  else
    match lookupName name object.fields, lookupName name object.methods with
    | some slot, _ => .ok (.reference slot)
    | none, some method => .ok (.ofValue (.atom (.function method (some id))))
    | none, none => .error (.noSuchMember (.object object.className) name)

namespace Eval

variable {ctx : Context} {m : Machine} {name : String} {slot : Slot} {id : ObjectId}

theorem objectOf_object (h : m.env.memory.content slot = .object id) :
    objectOf (.reference slot) ctx m = (.ok (some id), m) := by
  unfold objectOf
  dsimp only
  rw [andThen_apply, machine_apply]
  dsimp only
  rw [h]
  rfl

theorem instantiated_ok (h : (m.env.memory.instanceOf id).className.isEmpty = false) :
    instantiated id name ctx m = (.ok (m.env.memory.instanceOf id), m) := by
  unfold instantiated
  rw [andThen_apply, machine_apply]
  dsimp only
  rw [h]
  rfl

theorem instantiated_placeholder (h : (m.env.memory.instanceOf id).className.isEmpty = true) :
    instantiated id name ctx m = (.error (.eval (.uninstantiatedObject name)), m) := by
  unfold instantiated
  rw [andThen_apply, machine_apply]
  dsimp only
  rw [h]
  rfl

theorem memberOf_object (h : m.env.memory.content slot = .object id) :
    memberOf (.reference slot) name ctx m =
      (((m.env.memory.instanceOf id).member id name).mapError .eval, m) := by
  unfold memberOf Instance.member
  rw [andThen_apply_ok (objectOf_object h)]
  dsimp only
  cases hplaceholder : (m.env.memory.instanceOf id).className.isEmpty with
  | true =>
    rw [andThen_apply_error (instantiated_placeholder hplaceholder)]
    rfl
  | false =>
    rw [andThen_apply_ok (instantiated_ok hplaceholder)]
    cases lookupName name (m.env.memory.instanceOf id).fields with
    | some field => rfl
    | none => cases lookupName name (m.env.memory.instanceOf id).methods <;> rfl

theorem objectVariable_required (h : m.env.memory.content slot = .object id) :
    require (.reference slot) ctx m = (.ok (.reference slot), m) := by
  apply require_ok
  simp only [voidIn?, h]

theorem member_apply {object : String}
    (hobject : resolve m object = .reference slot)
    (hcontent : m.env.memory.content slot = .object id) :
    evalExpr (.member (.identifier object) name) ctx m =
      (((m.env.memory.instanceOf id).member id name).mapError .eval, m) := by
  rw [evalExpr, memberWith, andThen_apply_ok (identifier_apply hobject ctx),
    andThen_apply_ok (objectVariable_required hcontent), memberOf_object hcontent]

theorem receiver_found (h : m.env.scopes.lookup "this" = some slot) (ctx : Context) :
    receiver ctx m = (.ok (.reference slot), m) := by
  unfold receiver
  rw [andThen_apply, machine_apply]
  dsimp only
  rw [h]
  rfl

theorem receiver_missing (h : m.env.scopes.lookup "this" = none) (ctx : Context) :
    receiver ctx m = (.error (.eval .thisOutsideMethod), m) := by
  unfold receiver
  rw [andThen_apply, machine_apply]
  dsimp only
  rw [h]
  rfl

end Eval

end BuildScript
