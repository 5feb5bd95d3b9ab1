import BuildScript.Proofs.Storage.Binding
import BuildScript.Proofs.Typing.Running

/-!
The protocol of calling a function of a script. What a call requires is a list of checks in a fixed
order, all made before anything happens: the first one that is violated is the error of the call,
and the machine stays as it was. Otherwise the body starts with its parameters bound, and what it
gives back is held against the return type.
-/

namespace BuildScript.Protocol

open Eval (Bound typeIn valueIn voidIn?)

variable {m : Machine} {ctx : Context}

/-- Something a call requires, with the error for its violation. -/
structure Check where
  holds : Bool
  error : EvalError

def firstViolation : List Check → Option EvalError
  | [] => none
  | check :: rest => if check.holds then firstViolation rest else some check.error

def isReference : Operand → Bool
  | .reference _ => true
  | .temporary _ _ => false

/-- The error for an operand that holds no value. -/
def absence (m : Machine) (operand : Operand) : EvalError :=
  let name := (voidIn? m operand).getD ""
  if name.isEmpty then .noValue else .notDeclared name

/-- What an argument has to be for its parameter: a value; for a parameter by reference a slot of
exactly its type; for one by value of a type that converts to it, without overflow. A parameter of
type `void` takes any type. -/
def argumentChecks (m : Machine) (function : String) (position : Nat) (param : Parameter)
    (arg : Operand) : List Check :=
  let found := typeIn m arg
  let mismatch : EvalError := .argumentType function position param.type found
  ⟨found != .void, absence m arg⟩ ::
    if param.byReference then
      [⟨isReference arg, .referenceRequired function position⟩,
        ⟨param.type == .void || param.type == found, mismatch⟩]
    else
      [⟨param.type == .void || found.convertsTo param.type, mismatch⟩,
        ⟨param.type == .void || ((valueIn m arg).convert param.type).isOk, .overflow⟩]

def argumentsChecks (m : Machine) (function : String) (position : Nat) :
    List (Parameter × Operand) → List Check
  | [] => []
  | (param, arg) :: rest =>
    argumentChecks m function position param arg ++
      argumentsChecks m function (position + 1) rest

/-- What a call requires: that it is not too deep, one argument for each parameter, and what each
argument has to be, one after another. -/
def callChecks (m : Machine) (function : UserFunction) (args : List Operand) : List Check :=
  ⟨m.callDepth < m.options.maxCallDepth, .callDepthExceeded m.options.maxCallDepth⟩ ::
    ⟨args.length == function.params.length,
      .argumentCount function.name function.params.length args.length⟩ ::
    argumentsChecks m function.name 1 (function.params.zip args)

/-- The value that is passed to a parameter by value. -/
def passed (m : Machine) (param : Parameter) (arg : Operand) : Value :=
  if param.type == .void then valueIn m arg
  else
    match (valueIn m arg).convert param.type with
    | .ok value => value
    | .error _ => valueIn m arg

/-- What a parameter is bound to if its argument is as required. -/
def ready (m : Machine) (param : Parameter) (arg : Operand) : Bound :=
  match param.byReference, arg with
  | true, .reference slot => .shared slot
  | _, _ => .fresh (passed m param arg)

theorem firstViolation_append (first second : List Check) :
    firstViolation (first ++ second) = (firstViolation first).or (firstViolation second) := by
  induction first with
  | nil => rfl
  | cons check rest ih =>
    simp only [List.cons_append, firstViolation]
    split
    · exact ih
    · rfl

theorem convertNumber_error {atom : Atom} {target : DataType} {error : EvalError}
    (h : atom.convertNumber target = .error error) : error = .overflow := by
  unfold Atom.convertNumber at h
  split at h
  case h_6 =>
    unfold Integer.ofSingle at h
    split at h <;> cases h
    rfl
  all_goals cases h

/-- Between types that convert, only the range of integers can be at fault. -/
theorem convert_error {value : Value} {target : DataType} {error : EvalError}
    (hconverts : value.type.convertsTo target = true) (h : value.convert target = .error error) :
    error = .overflow := by
  unfold Value.convert at h
  rw [if_pos hconverts] at h
  split at h
  · rename_i atom
    cases hatom : atom.convertNumber target with
    | ok converted =>
      rw [hatom] at h
      cases h
    | error e =>
      rw [hatom] at h
      cases h
      exact convertNumber_error hatom
  · cases h
  · cases h

/-- What the placeholder of an operand without a value says shows in its type. -/
theorem type_of_voidIn?_some {operand : Operand} {name : String}
    (h : voidIn? m operand = some name) : typeIn m operand = .void := by
  unfold Eval.voidIn? at h
  unfold Eval.typeIn
  cases operand with
  | reference slot =>
    dsimp only at h ⊢
    split at h
    · rename_i hcontent
      rw [hcontent]
      rfl
    · cases h
  | temporary value isLiteral =>
    split at h
    · rename_i heq
      cases heq
    · rename_i heq
      cases heq
      rfl
    · cases h

/-- An operand is handed on if it holds a value. -/
theorem require_apply (operand : Operand) :
    Eval.require operand ctx m =
      if typeIn m operand != .void then (.ok operand, m)
      else (.error (.eval (absence m operand)), m) := by
  unfold Eval.require absence
  rw [Eval.andThen_apply, Eval.machine_apply]
  dsimp only
  cases hvoid : voidIn? m operand with
  | none =>
    have htype := Eval.type_of_voidIn?_none hvoid
    rw [if_pos (bne_iff_ne.mpr htype)]
    rfl
  | some name =>
    have htype := type_of_voidIn?_some hvoid
    rw [if_neg (by simp [htype])]
    rfl

/-- The checks of one argument decide what its parameter is bound to. -/
theorem boundFor_checked {function : String} {position : Nat} {param : Parameter} {arg : Operand}
    (hvalue : (typeIn m arg != .void) = true) :
    Eval.boundFor m function position param arg =
      match firstViolation (argumentChecks m function position param arg) with
      | some error => .error error
      | none => .ok (ready m param arg) := by
  unfold argumentChecks Eval.boundFor ready
  dsimp only
  rw [firstViolation, if_pos hvalue]
  cases hreference : param.byReference with
  | true =>
    cases arg with
    | temporary value isLiteral => rfl
    | reference slot =>
      simp only [if_true, firstViolation, isReference]
      split <;> rfl
  | false =>
    simp only [Bool.false_eq_true, if_false, firstViolation]
    by_cases hvoid : param.type = .void
    · simp [hvoid, passed]
    · have hnot : (param.type == DataType.void) = false := beq_eq_false_iff_ne.mpr hvoid
      simp only [hnot, Bool.false_or, Bool.false_eq_true, if_false]
      split
      · rename_i hconverts
        cases hconvert : (valueIn m arg).convert param.type with
        | ok value => simp [Except.isOk, Except.toBool, Except.map, passed, hnot, hconvert]
        | error e =>
          rw [← Eval.type_valueIn] at hconverts
          obtain rfl := convert_error hconverts hconvert
          rfl
      · rfl

/-- What the parameters of a call are bound to if every argument is as required. -/
def readyAll (m : Machine) (pairs : List (Parameter × Operand)) : List (String × Bound) :=
  pairs.map fun pair => (pair.1.name, ready m pair.1 pair.2)

/-- The arguments are made ready if none of their checks is violated. -/
theorem bindAll_checked (function : String) (position : Nat) (pairs : List (Parameter × Operand)) :
    Eval.bindAll function position pairs ctx m =
      match firstViolation (argumentsChecks m function position pairs) with
      | some error => (.error (.eval error), m)
      | none => (.ok (readyAll m pairs), m) := by
  induction pairs generalizing position with
  | nil => rfl
  | cons pair rest ih =>
    obtain ⟨param, arg⟩ := pair
    unfold Eval.bindAll argumentsChecks
    rw [firstViolation_append, Eval.andThen_apply, require_apply]
    by_cases hvalue : (typeIn m arg != .void) = true
    · rw [if_pos hvalue]
      dsimp only
      rw [Eval.andThen_apply, Eval.machine_apply]
      dsimp only
      rw [Eval.andThen_apply, Eval.ofExcept_apply, boundFor_checked hvalue]
      cases firstViolation (argumentChecks m function position param arg) with
      | some error => rfl
      | none =>
        simp only [Except.mapError, Option.none_or]
        rw [Eval.andThen_apply, ih]
        cases firstViolation (argumentsChecks m function (position + 1) rest) <;> rfl
    · rw [if_neg hvalue]
      unfold argumentChecks
      dsimp only
      rw [firstViolation, if_neg hvalue]
      rfl

/-! ### The body -/

/-- The machine in which the body of a call starts. -/
structure Starts (m : Machine) (function : UserFunction) (receiver : Option ObjectId)
    (args : List Operand) (start : Machine) : Prop where
  /-- Nothing but the variables and the storage differs from a machine that enters the call. -/
  entered : ∃ env, start = { Eval.entered function.file m with env }
  scopes : (m.env.scopes.push .call).Within start.env.scopes
  memory : m.env.memory.Grows start.env.memory
  self : ∀ id, receiver = some id → ∃ slot,
    start.env.scopes.lookupCurrent "this" = some slot ∧ m.env.memory.cells.size ≤ slot.index ∧
      start.env.memory.content slot = .object id
  shared : ∀ param slot, (param, .reference slot) ∈ function.params.zip args →
    param.byReference = true → start.env.scopes.lookupCurrent param.name = some slot
  /-- A parameter by value has storage that did not exist, down to its last part. -/
  fresh : ∀ param arg, (param, arg) ∈ function.params.zip args → param.byReference = false →
    ∃ slot, start.env.scopes.lookupCurrent param.name = some slot ∧
      start.env.memory.load slot = passed m param arg ∧
        ∀ part, start.env.memory.Inside slot part → m.env.memory.cells.size ≤ part.index
  apart : ∀ param arg param' arg' slot, (param, arg) ∈ function.params.zip args →
    (param', arg') ∈ function.params.zip args → param.byReference = false →
      param'.byReference = false → start.env.scopes.lookupCurrent param.name = some slot →
        start.env.scopes.lookupCurrent param'.name = some slot → param.name = param'.name

theorem mem_readyAll_shared {pairs : List (Parameter × Operand)} {param : Parameter} {slot : Slot}
    (h : (param, .reference slot) ∈ pairs) (hreference : param.byReference = true) :
    (param.name, Bound.shared slot) ∈ readyAll m pairs := by
  apply List.mem_map.mpr
  refine ⟨_, h, ?_⟩
  simp only [ready, hreference]

theorem mem_readyAll_fresh {pairs : List (Parameter × Operand)} {param : Parameter} {arg : Operand}
    (h : (param, arg) ∈ pairs) (hvalue : param.byReference = false) :
    (param.name, Bound.fresh (passed m param arg)) ∈ readyAll m pairs := by
  apply List.mem_map.mpr
  refine ⟨_, h, ?_⟩
  simp only [ready, hvalue]

theorem lookupCurrent_push_call (stack : ScopeStack) (name : String) :
    (stack.push .call).lookupCurrent name = none := rfl

/-- The receiver is bound where its name is new. -/
theorem defineReceiver_new {id : ObjectId} (h : m.env.scopes.lookupCurrent "this" = none) :
    Eval.defineReceiver id ctx m =
      (.ok (), { m with
        env := ⟨m.env.scopes.addBinding "this" (m.env.memory.push (.object id)).1,
          (m.env.memory.push (.object id)).2⟩ }) := by
  have hbind : Environment.bind { m.env with memory := (m.env.memory.push (.object id)).2 } "this"
      (m.env.memory.push (.object id)).1 =
        .ok ⟨m.env.scopes.addBinding "this" (m.env.memory.push (.object id)).1,
          (m.env.memory.push (.object id)).2⟩ := Environment.bind_eq h
  rw [Eval.defineReceiver_apply]
  dsimp only
  rw [hbind]

/-- A call that was entered, with its receiver bound and nothing else. -/
structure ReceiverBound (m : Machine) (function : UserFunction) (receiver : Option ObjectId)
    (before : Machine) : Prop where
  entered : ∃ env, before = { Eval.entered function.file m with env }
  scopes : (m.env.scopes.push .call).Within before.env.scopes
  memory : m.env.memory.Grows before.env.memory
  self : ∀ id, receiver = some id → ∃ slot,
    before.env.scopes.lookupCurrent "this" = some slot ∧ m.env.memory.cells.size ≤ slot.index ∧
      slot.index < before.env.memory.cells.size ∧ before.env.memory.content slot = .object id
  free : ∀ name, (receiver.isSome = true → name ≠ "this") →
    before.env.scopes.lookupCurrent name = none

theorem receiverBound_none (m : Machine) (function : UserFunction) :
    ReceiverBound m function none (Eval.entered function.file m) where
  entered := ⟨_, rfl⟩
  scopes := .refl _
  memory := .refl _
  self _ hid := by cases hid
  free name _ := lookupCurrent_push_call _ name

theorem receiverBound_some (m : Machine) (function : UserFunction) (id : ObjectId) :
    ∃ before, ReceiverBound m function (some id) before ∧ ∀ ctx,
      Eval.defineReceiver id ctx (Eval.entered function.file m) = (.ok (), before) := by
  have hrun (ctx : Context) := @defineReceiver_new (Eval.entered function.file m) ctx id
    (lookupCurrent_push_call _ "this")
  refine ⟨_, ?_, hrun⟩
  constructor
  · exact ⟨_, rfl⟩
  · exact .addBinding _ _ _
  · exact Memory.grows_push m.env.memory (.object id)
  · intro other hother
    cases hother
    refine ⟨(m.env.memory.push (.object id)).1, ?_, Nat.le_refl _, ?_, ?_⟩
    · rw [ScopeStack.lookupCurrent_addBinding, if_pos rfl]
      rfl
    · exact Memory.push_bound _ _
    · exact Memory.content_push_self _ _
  · intro name hname
    rw [ScopeStack.lookupCurrent_addBinding, if_neg (hname rfl)]
    exact lookupCurrent_push_call _ name

theorem readyAll_names {params : List Parameter} {args : List Operand}
    (hcount : args.length = params.length) :
    (readyAll m (params.zip args)).map (·.1) = params.map (·.name) := by
  have hfirst : (params.zip args).map Prod.fst = params :=
    List.map_fst_zip (Nat.le_of_eq hcount.symm)
  calc (readyAll m (params.zip args)).map (·.1)
      = ((params.zip args).map Prod.fst).map (·.name) := by
        unfold readyAll
        rw [List.map_map, List.map_map]
        rfl
    _ = params.map (·.name) := by rw [hfirst]

/-- Once the receiver is bound, parameters with names of their own are all bound. -/
theorem ReceiverBound.starts {function : UserFunction} {receiver : Option ObjectId}
    {args : List Operand} {before : Machine} (h : ReceiverBound m function receiver before)
    (hnames : (function.params.map (·.name)).Nodup)
    (hthis : receiver.isSome = true → "this" ∉ function.params.map (·.name))
    (hcount : args.length = function.params.length) :
    ∃ start, Starts m function receiver args start ∧ ∀ ctx,
      Eval.bindParameters (readyAll m (function.params.zip args)) ctx before = (.ok (), start) := by
  have hmap := @readyAll_names m function.params args hcount
  have hfree : ∀ name ∈ function.params.map (·.name),
      before.env.scopes.lookupCurrent name = none := by
    intro name hname
    apply h.free
    rintro hsome rfl
    exact hthis hsome hname
  rw [← hmap] at hnames hfree
  obtain ⟨env, hbinds, hrun⟩ := Eval.bindParameters_binds hnames hfree
  refine ⟨{ before with env }, ?_, hrun⟩
  obtain ⟨_, hbefore⟩ := h.entered
  constructor
  · exact ⟨env, by rw [hbefore]⟩
  · exact h.scopes.trans hbinds.scopes
  · exact h.memory.trans hbinds.memory.toGrows
  · intro id hid
    obtain ⟨slot, hslot, hnew, hbound, hcontent⟩ := h.self id hid
    have hother : "this" ∉ (readyAll m (function.params.zip args)).map (·.1) := by
      rw [hmap]
      exact hthis (by rw [hid]; rfl)
    exact ⟨slot, (hbinds.others "this" hother).trans hslot, hnew,
      (hbinds.memory.content slot hbound).trans hcontent⟩
  · intro param slot hmem hreference
    exact hbinds.shared _ _ (mem_readyAll_shared hmem hreference)
  · intro param arg hmem hvalue
    obtain ⟨slot, hslot, hnew, hload⟩ := hbinds.fresh _ _ (mem_readyAll_fresh hmem hvalue)
    refine ⟨slot, hslot, hload, fun part hinside => ?_⟩
    exact Nat.le_trans h.memory.cells (hbinds.memory.inside hnew hinside)
  · intro param arg param' arg' slot hmem hmem' hvalue hvalue' hslot hslot'
    exact hbinds.apart _ _ _ _ slot (mem_readyAll_fresh hmem hvalue)
      (mem_readyAll_fresh hmem' hvalue') hslot hslot'

/-- With names of their own, the receiver and the parameters are all bound. -/
theorem bindCall_starts (function : UserFunction) (receiver : Option ObjectId)
    (args : List Operand) (hnames : (function.params.map (·.name)).Nodup)
    (hthis : receiver.isSome = true → "this" ∉ function.params.map (·.name))
    (hcount : args.length = function.params.length) (m : Machine) :
    ∃ start, Starts m function receiver args start ∧ ∀ ctx,
      Eval.bindCall receiver (readyAll m (function.params.zip args)) ctx
        (Eval.entered function.file m) = (.ok (), start) := by
  cases receiver with
  | none => exact (receiverBound_none m function).starts hnames hthis hcount
  | some id =>
    obtain ⟨before, hbound, hreceiver⟩ := receiverBound_some m function id
    obtain ⟨start, hstart, hrun⟩ := hbound.starts hnames hthis hcount
    exact ⟨start, hstart, fun ctx => (Eval.andThen_apply_ok (hreceiver ctx)).trans (hrun ctx)⟩

/-! ### What the body gives back -/

/-- What a function of a return type makes of what its body gave back. -/
inductive Accepts : DataType → Option Value → Value → Prop
  | nothing : Accepts .void none .nothing
  | exact {value : Value} (hvalue : value.type ≠ .void) : Accepts value.type (some value) value
  /-- An array without an element type takes the declared one. -/
  | adopted {element : DataType} {value result : Value} (huntyped : value.type = .array .void)
      (hconvert : value.convert (.array element) = .ok result) :
      Accepts (.array element) (some value) result

/-- The error of a function whose body gave back something else. -/
def refusal (function : UserFunction) : Option Value → EvalError
  | none => .missingReturn function.name function.returnType
  | some value => .returnType function.name function.returnType value.type

theorem convert_untyped {value : Value} (h : value.type = .array .void) (element : DataType) :
    ∃ result, value.convert (.array element) = .ok result := by
  have hconverts : value.type.convertsTo (.array element) = true := by
    rw [h]
    simp [DataType.convertsTo]
  unfold Value.convert
  rw [if_pos hconverts]
  cases value with
  | array type items => cases items <;> exact ⟨_, rfl⟩
  | atom atom => cases atom <;> cases h
  | list items => cases h
  | object className fields methods => cases h

/-- A body that gives back what the return type asks for makes a value, and any other an error. -/
theorem checkReturn_eq (function : UserFunction) (returned : Option Value) :
    (∃ value, Accepts function.returnType returned value ∧
        Eval.checkReturn function returned = .ok value) ∨
      ((∀ value, ¬Accepts function.returnType returned value) ∧
        Eval.checkReturn function returned = .error (refusal function returned)) := by
  unfold Eval.checkReturn refusal
  split
  · rename_i htype
    rw [htype]
    exact .inl ⟨_, .nothing, rfl⟩
  · rename_i hvoid
    refine .inr ⟨fun value haccepts => ?_, rfl⟩
    generalize function.returnType = type at haccepts hvoid
    cases haccepts
    exact hvoid rfl
  · rename_i value htype
    rw [htype]
    refine .inr ⟨fun result haccepts => ?_, rfl⟩
    generalize hvoid : DataType.void = type at haccepts
    cases haccepts with
    | exact hvalue => exact hvalue hvoid.symm
    | adopted huntyped hconvert => cases hvoid
  · rename_i value hvoid
    generalize function.returnType = type at hvoid ⊢
    split
    · rename_i hsame
      obtain rfl := eq_of_beq hsame
      exact .inl ⟨value, .exact hvoid, rfl⟩
    · rename_i hother
      split
      · rename_i element huntyped
        obtain ⟨result, hconvert⟩ := convert_untyped huntyped element
        exact .inl ⟨result, .adopted huntyped hconvert, hconvert⟩
      · rename_i hnone
        refine .inr ⟨fun result haccepts => ?_, rfl⟩
        cases haccepts with
        | exact hvalue => exact hother (beq_self_eq_true _)
        | adopted huntyped hconvert => exact hnone _ rfl huntyped

/-! ### The call -/

variable {function : UserFunction} {receiver : Option ObjectId} {args : List Operand}

/-- A call that violates a check fails with its error and does nothing. -/
theorem callUser_violated {error : EvalError}
    (h : firstViolation (callChecks m function args) = some error) :
    Eval.callUser function receiver args ctx m = (.error (.eval error), m) := by
  unfold callChecks at h
  unfold Eval.callUser Eval.checkCallDepth
  simp only [firstViolation, decide_eq_true_eq, beq_iff_eq] at h
  rw [Eval.andThen_apply, Eval.andThen_apply, Eval.machine_apply]
  dsimp only
  split at h
  · rename_i hdepth
    rw [if_neg (Nat.not_le.mpr hdepth)]
    dsimp only [Eval.pure_apply]
    split at h
    · rename_i hcount
      rw [if_neg (by simp [hcount]), Eval.andThen_apply, bindAll_checked, h]
    · rename_i hcount
      cases h
      rw [if_pos (by simp [hcount])]
      rfl
  · rename_i hdepth
    cases h
    rw [if_pos (Nat.le_of_not_lt hdepth)]
    rfl

theorem arguments_admitted (h : firstViolation (callChecks m function args) = none) :
    firstViolation (argumentsChecks m function.name 1 (function.params.zip args)) = none := by
  unfold callChecks at h
  simp only [firstViolation] at h
  split at h
  · split at h
    · exact h
    · cases h
  · cases h

/-- What a call makes of the run of its body. -/
def answer (function : UserFunction) (caller : Machine) (run : Except Fault Flow × Machine) :
    Except Fault Operand × Machine :=
  match run with
  | (.error fault, after) => (.error fault, Eval.left caller after)
  | (.ok flow, after) =>
    (((Eval.checkReturn function (Eval.givenBack flow)).mapError .eval).map .ofValue,
      Eval.left caller after)

/-- A call that violates no check runs its body in its own scope. -/
theorem callUser_admitted (h : firstViolation (callChecks m function args) = none) :
    args.length = function.params.length ∧ ∀ receiver ctx,
      Eval.callUser function receiver args ctx m =
        answer function m (Eval.callBody receiver (readyAll m (function.params.zip args))
          function.body ctx (Eval.entered function.file m)) := by
  unfold callChecks at h
  simp only [firstViolation, decide_eq_true_eq, beq_iff_eq] at h
  split at h
  case isFalse => cases h
  rename_i hdepth
  split at h
  case isFalse => cases h
  rename_i hcount
  refine ⟨hcount, fun receiver ctx => ?_⟩
  unfold Eval.callUser Eval.checkCallDepth
  rw [Eval.andThen_apply, Eval.andThen_apply, Eval.machine_apply]
  dsimp only
  rw [if_neg (Nat.not_le.mpr hdepth)]
  dsimp only [Eval.pure_apply]
  rw [if_neg (by simp [hcount]), Eval.andThen_apply, bindAll_checked, h]
  dsimp only
  change (Eval.inFrame function.file (Eval.callBody receiver
    (readyAll m (function.params.zip args)) function.body) >>= fun flow =>
      Eval.ofExcept (Eval.checkReturn function (Eval.givenBack flow)) >>= fun value =>
        pure (Operand.ofValue value)) ctx m = _
  rw [Eval.andThen_apply, Eval.inFrame_apply]
  generalize Eval.callBody receiver (readyAll m (function.params.zip args)) function.body ctx
    (Eval.entered function.file m) = run
  obtain ⟨result, after⟩ := run
  cases result with
  | error fault => rfl
  | ok flow =>
    dsimp only [answer]
    rw [Eval.andThen_apply, Eval.ofExcept_apply]
    cases Eval.checkReturn function (Eval.givenBack flow) <;> rfl

/-- Once the receiver and the parameters are bound, the body runs. -/
theorem callBody_bound {bound : List (String × Bound)} {before start : Machine}
    (h : Eval.bindCall receiver bound ctx before = (.ok (), start))
    (lines : List Text.SourceLine) :
    Eval.callBody receiver bound lines ctx before =
      ctx.runBody ctx.held lines true start := by
  cases receiver with
  | none => exact Eval.andThen_apply_ok h
  | some id =>
    obtain ⟨⟨⟩, between, hreceiver, hparams⟩ := Eval.andThen_ok h
    exact (Eval.andThen_apply_ok hreceiver).trans (Eval.andThen_apply_ok hparams)

/-- The value passed to a parameter with a type is of exactly that type. -/
theorem passed_type (hm : m.Typed) {param : Parameter} {arg : Operand} (harg : arg.Typed m)
    (htype : param.type ≠ .void)
    (hconverts : ((valueIn m arg).convert param.type).isOk = true) :
    (passed m param arg).type = param.type := by
  unfold passed
  rw [if_neg (by simpa using htype)]
  cases hconvert : (valueIn m arg).convert param.type with
  | ok value => exact ((Eval.valueIn_typed hm harg).convert hconvert).2
  | error e =>
    rw [hconvert] at hconverts
    cases hconverts

theorem firstViolation_none {checks : List Check} (h : firstViolation checks = none) :
    ∀ check ∈ checks, check.holds = true := by
  induction checks with
  | nil => exact List.forall_mem_nil _
  | cons check rest ih =>
    unfold firstViolation at h
    split at h
    · rename_i hholds
      exact List.forall_mem_cons.mpr ⟨hholds, ih h⟩
    · cases h

theorem argumentChecks_subset {function : String} {position : Nat}
    {pairs : List (Parameter × Operand)} {pair : Parameter × Operand} (h : pair ∈ pairs) :
    ∃ place, argumentChecks m function place pair.1 pair.2 ⊆
      argumentsChecks m function position pairs := by
  induction pairs generalizing position with
  | nil => exact absurd h List.not_mem_nil
  | cons first rest ih =>
    rcases List.mem_cons.mp h with rfl | hrest
    · exact ⟨position, List.subset_append_left _ _⟩
    · obtain ⟨place, hplace⟩ := @ih (position + 1) hrest
      exact ⟨place, List.Subset.trans hplace (List.subset_append_right _ _)⟩

/-- Where no check is violated, what is passed by value converts. -/
theorem converts_of_admitted (h : firstViolation (callChecks m function args) = none)
    {param : Parameter} {arg : Operand} (hmem : (param, arg) ∈ function.params.zip args)
    (hvalue : param.byReference = false) (htype : param.type ≠ .void) :
    ((valueIn m arg).convert param.type).isOk = true := by
  obtain ⟨place, hsubset⟩ := @argumentChecks_subset m function.name 1 _ _ hmem
  have hcheck := firstViolation_none h
    ⟨param.type == .void || ((valueIn m arg).convert param.type).isOk, .overflow⟩ ?_
  · simpa [htype] using hcheck
  · apply List.mem_cons_of_mem
    apply List.mem_cons_of_mem
    apply hsubset
    simp [argumentChecks, hvalue]

/-- A typed value that a return type accepts makes a value of exactly that type. -/
theorem Accepts.type {type : DataType} {returned : Option Value} {value : Value}
    (h : Accepts type returned value)
    (hreturned : ∀ given, returned = some given → Eval.IsValue m given) :
    value.type = type ∧ (type = .void → value = .nothing) := by
  cases h with
  | nothing => exact ⟨rfl, fun _ => rfl⟩
  | exact hvalue => exact ⟨rfl, fun hvoid => absurd hvoid hvalue⟩
  | adopted huntyped hconvert =>
    exact ⟨((hreturned _ rfl).convert hconvert).2, fun hvoid => by cases hvoid⟩

/-- Whatever the body of a function of typed arguments does, a value it makes is of the return
type. -/
theorem answer_type (hnames : (function.params.map (·.name)).Nodup)
    (hthis : receiver.isSome = true → "this" ∉ function.params.map (·.name)) (hctx : ctx.Secures)
    (hm : m.Typed) (hargs : ∀ arg ∈ args, arg.Typed m)
    (hreceiver : ∀ id, receiver = some id → Eval.Exists m id) {operand : Operand} {after : Machine}
    (h : Eval.callUser function receiver args ctx m = (.ok operand, after)) :
    ∃ value, operand = .ofValue value ∧ value.type = function.returnType ∧
      (function.returnType = .void → value = .nothing) := by
  cases hviolation : firstViolation (callChecks m function args) with
  | some error =>
    rw [callUser_violated hviolation] at h
    cases h
  | none =>
    obtain ⟨hcount, hrun⟩ := callUser_admitted hviolation
    obtain ⟨start, -, hbind⟩ := bindCall_starts function receiver args hnames hthis hcount m
    have hpairs : ∀ pair ∈ function.params.zip args, pair.2.Typed m := fun pair hpair =>
      hargs pair.2 (List.of_mem_zip hpair).2
    have hready := @Eval.bindAll_secures ctx m function.name 1 _ hpairs hm ctx.held
    have hsuits := hready.result (readyAll m (function.params.zip args)) (by
      rw [bindAll_checked, arguments_admitted hviolation])
    rw [List.map_fst_zip (Nat.le_of_eq hcount.symm)] at hsuits
    have hentered := Eval.entered_aside function.file m
    have hbound := @Eval.bindCall_secures ctx (Eval.entered function.file m) receiver _ _ hreceiver
      (hsuits.2.mono hentered.settles) (hentered.typed hm) ctx.held
    have hstart : start.Typed := by
      have htyped := hbound.typed
      rwa [hbind] at htyped
    have hbody := hctx.runBody ctx.held function.body true start hstart
    rw [hrun, callBody_bound (hbind ctx)] at h
    cases hresult : ctx.runBody ctx.held function.body true start with
    | mk result left =>
      rw [hresult] at h hbody
      cases result with
      | error fault => cases h
      | ok flow =>
        have hflow := hbody.result flow rfl
        rcases checkReturn_eq function (Eval.givenBack flow) with
          ⟨value, haccepts, hcheck⟩ | ⟨hrefuses, hcheck⟩
        · simp only [answer, hcheck] at h
          cases h
          exact ⟨value, rfl, haccepts.type fun given hgiven => Eval.givenBack_typed hflow hgiven⟩
        · simp only [answer, hcheck] at h
          cases h

/-- The call protocol. The first violated check is the error of the call, which then changes
nothing, whatever the body would do. If there is none, the body starts with its parameters bound,
those by value to fresh storage of exactly their type, and what it gives back is accepted or refused
by the return type. Whatever a call gives is of that type. -/
theorem call_protocol (hnames : (function.params.map (·.name)).Nodup)
    (hthis : receiver.isSome = true → "this" ∉ function.params.map (·.name)) (m : Machine) :
    (∀ error, firstViolation (callChecks m function args) = some error → ∀ ctx,
      Eval.callUser function receiver args ctx m = (.error (.eval error), m)) ∧
    (firstViolation (callChecks m function args) = none →
      ∃ start, Starts m function receiver args start ∧
        (m.Typed → (∀ arg ∈ args, arg.Typed m) → ∀ param ∈ function.params,
          param.byReference = false → param.type ≠ .void → ∃ slot,
            start.env.scopes.lookupCurrent param.name = some slot ∧
              start.env.memory.typeAt slot = param.type) ∧
        ∀ ctx,
          (∀ fault after, ctx.runBody ctx.held function.body true start = (.error fault, after) →
            Eval.callUser function receiver args ctx m = (.error fault, Eval.left m after)) ∧
          ∀ flow after, ctx.runBody ctx.held function.body true start = (.ok flow, after) →
            (∃ value, Accepts function.returnType (Eval.givenBack flow) value ∧
              Eval.callUser function receiver args ctx m =
                (.ok (.ofValue value), Eval.left m after)) ∨
            ((∀ value, ¬Accepts function.returnType (Eval.givenBack flow) value) ∧
              Eval.callUser function receiver args ctx m =
                (.error (.eval (refusal function (Eval.givenBack flow))), Eval.left m after))) ∧
    (∀ ctx, ctx.Secures → m.Typed → (∀ arg ∈ args, arg.Typed m) →
      (∀ id, receiver = some id → Eval.Exists m id) → ∀ operand after,
        Eval.callUser function receiver args ctx m = (.ok operand, after) →
          ∃ value, operand = .ofValue value ∧ value.type = function.returnType ∧
            (function.returnType = .void → value = .nothing)) := by
  -- what becomes of the call once the body has run from its start
  have hanswer (start : Machine) (ctx : Context) (hadmitted :
      firstViolation (callChecks m function args) = none)
      (hbind : Eval.bindCall receiver (readyAll m (function.params.zip args)) ctx
        (Eval.entered function.file m) = (.ok (), start)) :
      Eval.callUser function receiver args ctx m =
        answer function m (ctx.runBody ctx.held function.body true start) := by
    rw [(callUser_admitted hadmitted).2, callBody_bound hbind]
  refine ⟨fun error h ctx => callUser_violated h, ?_, ?_⟩
  · intro hadmitted
    obtain ⟨hcount, -⟩ := callUser_admitted hadmitted
    obtain ⟨start, hstart, hbind⟩ := bindCall_starts function receiver args hnames hthis hcount m
    refine ⟨start, hstart, ?_, ?_⟩
    · intro hm hargs param hparam hvalue htype
      obtain ⟨arg, hmem⟩ : ∃ arg, (param, arg) ∈ function.params.zip args := by
        rw [← List.map_fst_zip (Nat.le_of_eq hcount.symm)] at hparam
        obtain ⟨⟨_, arg⟩, hmem, rfl⟩ := List.mem_map.mp hparam
        exact ⟨arg, hmem⟩
      obtain ⟨slot, hslot, hload, -⟩ := hstart.fresh param arg hmem hvalue
      refine ⟨slot, hslot, ?_⟩
      rw [← Memory.type_load, hload]
      exact passed_type hm (hargs arg (List.of_mem_zip hmem).2) htype
        (converts_of_admitted hadmitted hmem hvalue htype)
    · intro ctx
      constructor
      · intro fault after hrun
        rw [hanswer start ctx hadmitted (hbind ctx), hrun]
        rfl
      · intro flow after hrun
        rw [hanswer start ctx hadmitted (hbind ctx), hrun]
        rcases checkReturn_eq function (Eval.givenBack flow) with
          ⟨value, haccepts, hcheck⟩ | ⟨hrefuses, hcheck⟩
        · left
          refine ⟨value, haccepts, ?_⟩
          simp only [answer, hcheck]
          rfl
        · right
          refine ⟨hrefuses, ?_⟩
          simp only [answer, hcheck]
          rfl
  · intro ctx hctx hm hargs hreceiver operand after hrun
    exact answer_type hnames hthis hctx hm hargs hreceiver hrun

/-- Takes a number and the variable to count with. -/
def counting : UserFunction :=
  { id := 100
    name := "count"
    params := [⟨.int, "n", false⟩, ⟨.int, "total", true⟩]
    returnType := .int
    body := [⟨1, "total += n"⟩, ⟨2, "return total"⟩]
    file := "lib.eve"
    line := 1
    isMethod := false }

/-- A literal is no slot to count with: the call fails without a trace. -/
theorem counting_literal_refused :
    let m : Machine := .initial .standard (.shelf ⟨[]⟩)
    let args : List Operand := [.ofValue (.bool true), .temporary (.int 0) true]
    (counting.params.map (·.name)).Nodup ∧
      Eval.callUser counting none args (Session.context .none 1 []) m =
        (.error (.eval (.referenceRequired "count" 2)), m) := by
  intro m args
  have hnames : (counting.params.map (·.name)).Nodup := by decide
  have hviolation : firstViolation (callChecks m counting args) =
      some (.referenceRequired "count" 2) := rfl
  obtain ⟨hrefused, -, -⟩ := @call_protocol counting none args hnames (fun h => by cases h) m
  exact ⟨hnames, hrefused _ hviolation _⟩

end BuildScript.Protocol
