import BuildScript.Proofs.Evaluation.Equations

/-!
What holds of every evaluation because it holds of the elementary ones. An evaluation is composed of
elementary steps, which are listed once in `Steps`: a property of evaluations that has them all and
survives composition is had by the evaluation of any expression.
-/

namespace BuildScript.Eval

variable {α β : Type} {T : ∀ ⦃α : Type⦄, Eval α → Prop}

/-- Binds the receiver and the parameters of a call and runs its body. -/
def callBody (receiver : Option ObjectId) (bound : List (String × Bound))
    (lines : List Text.SourceLine) : Eval Flow := do
  match receiver with
  | some id => defineReceiver id
  | none => pure ()
  bindParameters bound
  runBody lines true

/-- Binds the receiver and the parameters of a call. -/
def bindCall (receiver : Option ObjectId) (bound : List (String × Bound)) : Eval Unit := do
  match receiver with
  | some id => defineReceiver id
  | none => pure ()
  bindParameters bound

theorem callBody_apply (receiver : Option ObjectId) (bound : List (String × Bound))
    (lines : List Text.SourceLine) (ctx : Context) (m : Machine) :
    callBody receiver bound lines ctx m = match bindCall receiver bound ctx m with
      | (.ok _, inside) => ctx.runBody ctx.held lines true inside
      | (.error fault, inside) => (.error fault, inside) := by
  have hbound (m : Machine) : (bindParameters bound >>= fun _ => runBody lines true) ctx m =
      match bindParameters bound ctx m with
      | (.ok _, inside) => ctx.runBody ctx.held lines true inside
      | (.error fault, inside) => (.error fault, inside) := by
    rw [andThen_apply]
    rcases bindParameters bound ctx m with ⟨_ | _, _⟩ <;> rfl
  cases receiver with
  | none => exact hbound m
  | some id =>
    simp only [callBody, bindCall, andThen_apply]
    rcases defineReceiver id ctx m with ⟨_ | _, inside⟩
    · rfl
    · exact hbound inside

/-- What a procedure whose body ended so gives. -/
def procedureResult (procedure : Procedure) (flow : Flow) : Eval Operand :=
  match givenBack flow with
  | some value => raise (.returnType procedure.name .void value.type)
  | none => return .nothing

/-- The body of a native function, with the arguments it gets and what is held during the call. -/
def runNative (native : NativeFunction) (anchors : List Anchor) (args : List Operand) :
    Eval Operand :=
  match native.body with
  | .size => do return .ofValue (← Eval.ofExcept (sizeOf (args.map (valueIn (← machine)))))
  | .host entry => do return .ofValue (← holding anchors (callHost entry args))

/-- The slot at an index. -/
def elementOf (index : Int32) (items : List Slot) : Eval Operand := do
  let i ← Eval.ofExcept (Integer.toIndex index items.length)
  match items[i]? with
  | some slot => return .reference slot
  | none => raise (.indexOutOfRange index.toInt items.length)

/-- Assigns a value, combined with the current one if the operator is a compound one. -/
def assignSource (op : Operator) (target : Operand) (source : Value) : Eval Operand :=
  match op.compoundBase? with
  | none => assign target source
  | some base => do
    let current ← valueOf target
    assign target (← Eval.ofExcept (Operation.binary base current source))

/-- A property of evaluations that survives their composition. What is read off the machine may be
anything but its scopes, its line, the outcome of the last `if` and its log. -/
structure Composes (T : ∀ ⦃α : Type⦄, Eval α → Prop) : Prop where
  pure : ∀ {α : Type} (a : α), T (pure a)
  fail : ∀ {α : Type} (fault : Fault), T (fail fault : Eval α)
  bind : ∀ {α β : Type} {x : Eval α} {f : α → Eval β}, T x → (∀ a, T (f a)) → T (x >>= f)
  attempt : ∀ {α : Type} {x : Eval α}, T x → T (attempt x)
  holding : ∀ {α : Type} (anchors : List Anchor) {x : Eval α}, T x → T (holding anchors x)
  read : ∀ {α : Type} {f : Machine → Eval α},
    (∀ (m : Machine) scopes line outcome log,
      f ({ m with env := { m.env with scopes }, line, lastIf := outcome }.withLog log) = f m) →
      (∀ m, T (f m)) → T (machine >>= f)

/-- A property of everything an evaluation asks the scopes for: what a name stands for, whether one
is known, the receiver of the running method, and whether an object still exists. -/
structure Sees (T : ∀ ⦃α : Type⦄, Eval α → Prop) : Prop where
  resolved : ∀ name, T (do return resolve (← machine) name)
  known : ∀ name, T (do return Value.bool (isKnown (← machine) name))
  receiver : T receiver
  alive : ∀ anchors id, T (do return isAlive (← machine) (anchors ++ (← held)) id)

namespace Composes

theorem raise (h : Composes T) (error : EvalError) : T (raise error : Eval α) := h.fail _

/-- A property that the whole of the machine can be read with. -/
theorem sees (h : Composes T) (hmachine : T machine) (hheld : T held) : Sees T where
  resolved _ := h.bind hmachine fun _ => h.pure _
  known _ := h.bind hmachine fun _ => h.pure _
  receiver := by
    refine h.bind hmachine fun m => ?_
    split
    · exact h.pure _
    · exact h.raise _
  alive _ _ := h.bind hmachine fun _ => h.bind hheld fun _ => h.pure _

theorem ofExcept (h : Composes T) (result : Except EvalError α) : T (Eval.ofExcept result) := by
  cases result with
  | ok a => exact h.pure a
  | error e => exact h.fail (.eval e)

theorem valueOf (h : Composes T) (operand : Operand) : T (valueOf operand) := by
  refine h.read (fun m _ _ _ _ => ?_) fun m => h.pure _
  cases operand <;> rfl

theorem require (h : Composes T) (operand : Operand) : T (require operand) := by
  refine h.read (fun m _ _ _ _ => ?_) fun m => ?_
  · cases operand <;> rfl
  · split
    · exact h.raise _
    · exact h.pure _

theorem valueBy (h : Composes T) {x : Eval Operand} (hx : T x) : T (valueBy x) :=
  h.bind hx fun operand => h.bind (h.require operand) fun operand => h.valueOf operand

theorem recover (h : Composes T) (hreport : ∀ fault, T (Eval.report fault)) (fault : Fault) :
    T (recover fault) := by
  refine h.read (fun _ _ _ _ _ => rfl) fun m => ?_
  split
  · exact h.fail fault
  · exact hreport fault

theorem bindAll (h : Composes T) (function : String) (position : Nat)
    (pairs : List (Parameter × Operand)) : T (bindAll function position pairs) := by
  induction pairs generalizing position with
  | nil => exact h.pure _
  | cons pair rest ih =>
    refine h.bind (h.require _) fun arg => h.read (fun _ _ _ _ _ => rfl) fun m => ?_
    refine h.bind (h.ofExcept _) fun bound => ?_
    exact h.bind (ih (position + 1)) fun others => h.pure _

theorem checkCallDepth (h : Composes T) : T checkCallDepth := by
  refine h.read (fun _ _ _ _ _ => rfl) fun m => ?_
  split
  · exact h.raise _
  · exact h.pure _

theorem callUser (h : Composes T)
    (hframe : ∀ file receiver bound lines, T (inFrame file (callBody receiver bound lines)))
    (function : UserFunction) (receiver : Option ObjectId)
    (args : List Operand) : T (callUser function receiver args) := by
  refine h.bind h.checkCallDepth fun _ => ?_
  have hrest : T (do
      let bound ← Eval.bindAll function.name 1 (function.params.zip args)
      let flow ← inFrame function.file (callBody receiver bound function.body)
      return .ofValue (← Eval.ofExcept (checkReturn function (givenBack flow))) :
        Eval Operand) := by
    refine h.bind (h.bindAll _ _ _) fun bound => ?_
    refine h.bind (hframe _ _ _ _) fun flow => ?_
    exact h.bind (h.ofExcept _) fun value => h.pure _
  dsimp only
  split
  · exact h.bind (h.raise _) fun _ => hrest
  · exact hrest

theorem callProcedure (h : Composes T)
    (hframe : ∀ file receiver bound lines, T (inFrame file (callBody receiver bound lines)))
    (procedure : Procedure) (args : List Operand) :
    T (callProcedure procedure args) := by
  refine h.bind h.checkCallDepth fun _ => ?_
  have hrest : T (inFrame procedure.file (callBody none [] procedure.body) >>=
      procedureResult procedure) := by
    refine h.bind (hframe _ _ _ _) fun flow => ?_
    unfold procedureResult
    split
    · exact h.raise _
    · exact h.pure _
  dsimp only
  split
  · exact h.bind (h.raise _) fun _ => hrest
  · exact hrest

/-- Binding the parameters of a call is binding slots and defining names. -/
theorem bindParameters (h : Composes T) (hbind : ∀ name slot, T (Eval.bind name slot))
    (hdefine : ∀ name value, T (define name value)) (bound : List (String × Bound)) :
    T (bindParameters bound) := by
  induction bound with
  | nil => exact h.pure ()
  | cons first rest ih =>
    obtain ⟨name, argument⟩ := first
    cases argument with
    | shared slot => exact h.bind (hbind name slot) fun _ => ih
    | fresh value => exact h.bind (hdefine name value) fun _ => ih

theorem callBody (h : Composes T) (hbind : ∀ name slot, T (Eval.bind name slot))
    (hdefine : ∀ name value, T (define name value)) (hreceiver : ∀ id, T (defineReceiver id))
    (hbody : ∀ lines, T (runBody lines true)) (receiver : Option ObjectId)
    (bound : List (String × Bound)) (lines : List Text.SourceLine) :
    T (callBody receiver bound lines) := by
  have hrest : T (do
      Eval.bindParameters bound
      runBody lines true) :=
    h.bind (h.bindParameters hbind hdefine bound) fun _ => hbody lines
  cases receiver with
  | none => exact hrest
  | some id => exact h.bind (hreceiver id) fun _ => hrest

end Composes

/-- A property that survives composition and that evaluations have which only ask for something. A
temporary is given a place to get at its elements or fields. -/
structure Reads (T : ∀ ⦃α : Type⦄, Eval α → Prop) : Prop extends Composes T, Sees T where
  place : ∀ value, T (place value)

namespace Reads

theorem objectOf (h : Reads T) (operand : Operand) : T (objectOf operand) := by
  unfold Eval.objectOf
  split
  · refine h.read (fun _ _ _ _ _ => rfl) fun m => ?_
    split <;> exact h.pure _
  · refine h.bind (h.place _) fun content => ?_
    split <;> exact h.pure _
  · exact h.pure _

theorem instantiated (h : Reads T) (id : ObjectId) (member : String) :
    T (instantiated id member) := by
  refine h.read (fun _ _ _ _ _ => rfl) fun m => ?_
  dsimp only
  split
  · exact h.raise _
  · exact h.pure _

theorem memberOf (h : Reads T) (target : Operand) (name : String) :
    T (memberOf target name) := by
  refine h.bind (h.objectOf target) fun id => ?_
  split
  · exact h.read (fun _ _ _ _ _ => rfl) fun m => h.raise _
  · refine h.bind (h.instantiated _ name) fun object => ?_
    split
    · exact h.pure _
    · exact h.pure _
    · exact h.raise _

theorem logicWith (h : Reads T) (op : Operator) {left right : Eval Operand}
    (hleft : T left) (hright : T right) :
    T (logicWith op left right) := by
  refine h.bind (h.valueBy hleft) fun value => h.bind (h.ofExcept _) fun first => ?_
  split
  · exact h.pure _
  · refine h.bind (h.valueBy hright) fun value => ?_
    exact h.bind (h.ofExcept _) fun second => h.pure _

theorem binaryWith (h : Reads T) (op : Operator) {left right : Eval Operand}
    (hleft : T left) (hright : T right) :
    T (binaryWith op left right) := by
  refine h.bind (h.valueBy hleft) fun a => h.bind (h.valueBy hright) fun b => ?_
  exact h.bind (h.ofExcept _) fun value => h.pure _

theorem unaryWith (h : Reads T) (op : Operator) {operand : Eval Operand}
    (hoperand : T operand) : T (unaryWith op operand) := by
  refine h.bind (h.valueBy hoperand) fun a => ?_
  exact h.bind (h.ofExcept _) fun value => h.pure _

theorem character (h : Reads T) (index : Int32) (value : Value) :
    T (element.character index value) := by
  unfold element.character
  split
  · exact h.bind (h.ofExcept _) fun i => h.pure _
  · exact h.raise _

theorem element (h : Reads T) (container : Operand) (index : Int32) :
    T (element container index) := by
  have hitem (items : List Slot) : T (elementOf index items) := by
    refine h.bind (h.ofExcept _) fun i => ?_
    split
    · exact h.pure _
    · exact h.raise _
  unfold Eval.element
  dsimp only
  split
  · refine h.bind (h.place _) fun content => ?_
    split <;> exact hitem _
  · refine h.bind (h.place _) fun content => ?_
    split <;> exact hitem _
  · exact h.character _ _
  · refine h.read (fun _ _ _ _ _ => rfl) fun m => ?_
    split
    · exact hitem _
    · exact hitem _
    · exact h.bind (h.valueOf _) fun value => h.character _ _

theorem indexWith (h : Reads T) {container index : Eval Operand}
    (hcontainer : T container) (hindex : T index) :
    T (indexWith container index) := by
  refine h.bind hcontainer fun operand => h.bind (h.require operand) fun container => ?_
  refine h.bind (h.holding _ (h.valueBy hindex)) fun position => ?_
  exact h.bind (h.ofExcept _) fun i => h.element container i

theorem memberWith (h : Reads T) {object : Eval Operand} (hobject : T object)
    (name : String) : T (memberWith object name) :=
  h.bind hobject fun operand => h.bind (h.require operand) fun target => h.memberOf target name

/-- A cast computes its value from its argument. -/
theorem castWith (h : Reads T) (type : DataType) {args : Eval (List Operand)}
    (hargs : T args) : T (castWith type args) := by
  have hcast {builtin : Builtin} (hbuiltin : Builtin.castTo? type = some builtin)
      (args : List Operand) : T (runBuiltin builtin args) := by
    refine h.read (fun _ _ _ _ _ => rfl) fun m => ?_
    unfold Builtin.castTo? at hbuiltin
    split at hbuiltin <;> cases hbuiltin
    · exact h.bind (h.ofExcept _) fun value => h.pure _
    all_goals exact h.ofExcept _
  unfold Eval.castWith
  split
  · exact h.raise _
  · rename_i builtin hbuiltin
    refine h.bind hargs fun args => ?_
    unfold callBuiltin
    split
    · exact h.bind (hcast hbuiltin args) fun value => h.pure _
    · exact h.raise _

end Reads

/-- A property that survives composition and that the elementary steps of an evaluation have. -/
structure Steps (T : ∀ ⦃α : Type⦄, Eval α → Prop) : Prop extends Reads T where
  print : ∀ text, T (update (·.print text))
  warn : ∀ text, T (update (·.warn text))
  debug : ∀ text, T (update (·.emit (.debug text)))
  reportMessage : ∀ text, T (update (·.reportMessage text))
  reportAll : ∀ errors, T (update (·.reportAll errors))
  giveIds : ∀ count, T (giveIds count)
  fileOperation : ∀ operation, T (fileOperation operation)
  define : ∀ name value, T (define name value)
  write : ∀ slot value, T (update fun m => { m with env := m.env.write slot value })
  callUser : ∀ function receiver args, T (callUser function receiver args)
  callProcedure : ∀ procedure args, T (callProcedure procedure args)
  includeFile : ∀ path, T (includeFile path)
  callHost : ∀ entry args, T (callHost entry args)

namespace Steps

theorem report (h : Steps T) (fault : Fault) : T (Eval.report fault) := h.reportMessage _

theorem assign (h : Steps T) (target : Operand) (source : Value) :
    T (assign target source) := by
  cases target with
  | temporary value isLiteral => exact h.raise _
  | reference slot =>
    refine h.read (fun _ _ _ _ _ => rfl) fun m => h.bind (h.ofExcept _) fun value => ?_
    exact h.bind (h.write slot value) fun _ => h.pure _

theorem startOf (h : Steps T) (type : DataType) (name : String) :
    T (startOf type name) := by
  refine h.read (fun _ _ _ _ _ => rfl) fun m => ?_
  refine h.bind (h.reportAll _) fun _ => ?_
  split
  · exact h.pure _
  · exact h.raise _

theorem declare (h : Steps T) (type : DataType) (name : String) (initial : Option Value) :
    T (declare type name initial) := by
  cases initial with
  | some value =>
    exact h.bind (h.ofExcept _) fun value => h.bind (h.define name value) fun _ => h.pure _
  | none =>
    exact h.bind (h.startOf type name) fun value => h.bind (h.define name value) fun _ => h.pure _

theorem printing (h : Steps T) (args : List Value) {act : Machine → String → Machine}
    (hact : ∀ text, T (update (act · text))) : T (printing args act) := by
  refine h.bind (h.ofExcept _) fun text => ?_
  exact h.bind (hact text) fun _ => h.pure _

theorem isDefined (h : Steps T) (operands : List Operand) :
    T (isDefined operands) := by
  unfold Eval.isDefined
  split
  · exact h.raise _
  · exact h.pure _
  · split
    · split
      · exact h.raise _
      · exact h.pure _
    · exact h.known _
    · exact h.pure _

theorem pathOperation (h : Steps T) (builtin : Builtin) (args : List Value)
    (operation : FileSystem → String → FileSystem × Option IoError) :
    T (pathOperation builtin args operation) :=
  h.bind (h.ofExcept _) fun _ => h.read (fun _ _ _ _ _ => rfl) fun _ => h.fileOperation _

theorem transfer (h : Steps T) (builtin : Builtin) (args : List Value)
    (operation : FileSystem → String → String → FileSystem × Option IoError) :
    T (transfer builtin args operation) :=
  h.bind (h.ofExcept _) fun _ => h.bind (h.ofExcept _) fun _ =>
    h.read (fun _ _ _ _ _ => rfl) fun _ => h.fileOperation _

theorem changeMode (h : Steps T) (args : List Value) : T (changeMode args) := by
  refine h.bind (h.ofExcept _) fun path => h.bind (h.ofExcept _) fun mode => ?_
  refine h.read (fun _ _ _ _ _ => rfl) fun m => ?_
  split
  · exact h.pure _
  · exact h.fileOperation _

theorem listFiles (h : Steps T) (args : List Value) : T (listFiles args) :=
  h.bind (h.ofExcept _) fun _ => h.read (fun _ _ _ _ _ => rfl) fun _ => h.pure _

theorem modificationTime (h : Steps T) (args : List Value) :
    T (modificationTime args) := by
  refine h.bind (h.ofExcept _) fun path => h.read (fun _ _ _ _ _ => rfl) fun m => ?_
  split
  · exact h.raise _
  · split
    · exact h.raise _
    · exact h.bind (h.ofExcept _) fun seconds => h.pure _

theorem runBuiltin (h : Steps T) (builtin : Builtin) (operands : List Operand) :
    T (runBuiltin builtin operands) := by
  refine h.read (fun _ _ _ _ _ => rfl) fun m => ?_
  cases builtin with
  | print => exact h.printing _ h.print
  | printLine =>
    dsimp only
    split
    · exact h.bind (h.print _) fun _ => h.pure _
    · exact h.printing _ fun text => h.print _
  | warning => exact h.printing _ h.warn
  | error => exact h.printing _ h.reportMessage
  | debug => exact h.printing _ h.debug
  | typeOf | castString => exact h.bind (h.ofExcept _) fun value => h.pure _
  | castBool | castInt | castFloat => exact h.ofExcept _
  | includeFile =>
    refine h.bind (h.ofExcept _) fun path => ?_
    exact h.bind (h.includeFile path) fun ok => h.pure _
  | listFiles => exact h.listFiles _
  | defined => exact h.isDefined operands
  | copyFile | moveFile => exact h.transfer _ _ _
  | deleteFile | makeDir | makePath | makeFile => exact h.pathOperation _ _ _
  | changeMode => exact h.changeMode _
  | modificationTime => exact h.modificationTime _

theorem callBuiltin (h : Steps T) (builtin : Builtin) (args : List Operand) :
    T (callBuiltin builtin args) := by
  unfold Eval.callBuiltin
  split
  · exact h.bind (h.runBuiltin builtin args) fun value => h.pure _
  · exact h.raise _

theorem callNative (h : Steps T) (native : NativeFunction) (receiver : Option ObjectId)
    (args : List Operand) : T (callNative native receiver args) := by
  refine h.read (fun _ _ _ _ _ => rfl) fun m => ?_
  have hrest (anchors : List Anchor) (args : List Operand) :
      T (runNative native anchors args) := by
    unfold runNative
    split
    · exact h.read (fun _ _ _ _ _ => rfl) fun m => h.bind (h.ofExcept _) fun value => h.pure _
    · exact h.bind (h.holding _ (h.callHost _ _)) fun value => h.pure _
  cases receiver with
  | some id =>
    dsimp only
    split
    · exact h.bind (h.raise _) fun _ => hrest _ _
    · exact hrest _ _
  | none =>
    dsimp only
    split
    · exact h.bind (h.raise _) fun _ => hrest _ _
    · exact hrest _ _

theorem callFunction (h : Steps T) (callable : Callable) (receiver : Option ObjectId)
    (args : List Operand) : T (callFunction callable receiver args) := by
  cases callable with
  | builtin builtin => exact h.callBuiltin builtin args
  | native native => exact h.callNative native receiver args
  | user function => exact h.callUser function receiver args

theorem callValue (h : Steps T) (function : Value) (args : List Operand) :
    T (callValue function args) := by
  unfold Eval.callValue
  split
  · exact h.callFunction _ _ _
  · rename_i callable id
    have hcalled (alive : Bool) : T (if alive then Eval.callFunction callable (some id) args
        else raise .danglingReceiver) := by
      split
      · exact h.callFunction _ _ _
      · exact h.raise _
    have hbound := h.bind (h.alive (args.flatMap Operand.anchors) id) hcalled
    exact hbound
  · exact h.callProcedure _ _
  · exact h.raise _

theorem callObject (h : Steps T) (target : Operand) (id : ObjectId) (name : String)
    {args : Eval (List Operand)} (hargs : T args) :
    T (callObject target id name args) := by
  refine h.bind (h.instantiated id name) fun object => ?_
  dsimp only
  split
  · refine h.bind (h.holding _ hargs) fun args => ?_
    exact h.holding _ (h.callFunction _ _ _)
  · refine h.bind (h.valueOf _) fun function => ?_
    exact h.holding _ (h.bind hargs fun args => h.callValue function args)
  · exact h.raise _

theorem callMember (h : Steps T) (target : Operand) (name : String)
    {args : Eval (List Operand)} (hargs : T args) :
    T (callMember target name args) := by
  refine h.bind (h.objectOf target) fun id => ?_
  cases id with
  | some id => exact h.callObject target id name hargs
  | none =>
    refine h.read (fun _ _ _ _ _ => rfl) fun m => ?_
    dsimp only
    split
    · exact h.raise _
    · exact h.bind (h.holding _ hargs) fun args => h.callFunction _ _ _

theorem declareWith (h : Steps T) (type : DataType) (name : String) {value : Eval Operand}
    (hvalue : T value) : T (declareWith type name value) :=
  h.bind (h.valueBy hvalue) fun _ => h.declare type name _

theorem assignWith (h : Steps T) (op : Operator) {target value : Eval Operand}
    (htarget : T target) (hvalue : T value) :
    T (assignWith op target value) := by
  have hrest (target : Operand) : T (holding target.anchors (Eval.valueBy value) >>=
      assignSource op target) := by
    refine h.bind (h.holding _ (h.valueBy hvalue)) fun source => ?_
    unfold assignSource
    split
    · exact h.assign target source
    · refine h.bind (h.valueOf target) fun current => ?_
      exact h.bind (h.ofExcept _) fun value => h.assign target value
  refine h.bind htarget fun target => ?_
  cases target with
  | reference slot => exact hrest _
  | temporary value isLiteral => exact h.bind (h.require _) fun target => hrest target

theorem callMemberWith (h : Steps T) {object : Eval Operand} {args : Eval (List Operand)}
    (hobject : T object) (name : String) (hargs : T args) :
    T (callMemberWith object name args) :=
  h.bind hobject fun operand => h.bind (h.require operand) fun target =>
    h.callMember target name hargs

theorem callWith (h : Steps T) {callee : Eval Operand} {args : Eval (List Operand)}
    (hcallee : T callee) (hargs : T args) :
    T (callWith callee args) :=
  h.bind (h.valueBy hcallee) fun function => h.bind hargs fun args => h.callValue function args

mutual

/-- What holds across every step holds across the evaluation of any expression. -/
theorem evalExpr (h : Steps T) : (expr : Expr) → T (evalExpr expr)
  | .literal value => by
    unfold Eval.evalExpr
    exact h.pure _
  | .identifier name => by
    unfold Eval.evalExpr
    exact h.resolved name
  | .ownMember name => by
    unfold Eval.evalExpr
    exact h.bind h.receiver fun target => h.memberOf target name
  | .declare type name => by
    unfold Eval.evalExpr
    exact h.declare type name none
  | .arrayLiteral elements => by
    unfold Eval.evalExpr
    refine h.bind (h.evalValues elements) fun values => ?_
    exact h.bind (h.ofExcept _) fun value => h.pure _
  | .unary op operand => by
    unfold Eval.evalExpr
    exact h.unaryWith op (h.evalExpr operand)
  | .binary op left right => by
    have hleft := h.evalExpr left
    have hright := h.evalExpr right
    unfold Eval.evalExpr
    split
    · exact h.indexWith hleft hright
    · split
      · exact h.logicWith op hleft hright
      · split
        · split
          · exact h.declareWith _ _ hright
          · exact h.assignWith _ hleft hright
        · exact h.binaryWith op hleft hright
  | .member object name => by
    unfold Eval.evalExpr
    exact h.memberWith (h.evalExpr object) name
  | .call callee arguments => by
    have hargs := h.evalArguments arguments
    unfold Eval.evalExpr
    split
    · rename_i object name
      exact h.callMemberWith (h.evalExpr object) name hargs
    · exact h.bind h.receiver fun target => h.callMember target _ hargs
    · exact h.callWith (h.evalExpr callee) hargs
  | .cast type arguments => by
    unfold Eval.evalExpr
    exact h.castWith type (h.evalArguments arguments)

theorem evalValues (h : Steps T) : (exprs : List Expr) → T (evalValues exprs)
  | [] => by
    unfold Eval.evalValues
    exact h.pure _
  | expr :: rest => by
    unfold Eval.evalValues
    refine h.bind (h.valueBy (h.evalExpr expr)) fun value => ?_
    exact h.bind (h.evalValues rest) fun values => h.pure _

theorem evalArguments (h : Steps T) :
    (exprs : List Expr) → T (evalArguments exprs)
  | [] => by
    unfold Eval.evalArguments
    exact h.pure _
  | expr :: rest => by
    unfold Eval.evalArguments
    refine h.bind (h.evalExpr expr) fun operand => ?_
    exact h.bind (h.holding _ (h.evalArguments rest)) fun operands => h.pure _

end

theorem evalValue (h : Steps T) (expr : Expr) : T (evalValue expr) :=
  h.valueBy (h.evalExpr expr)

end Steps

end BuildScript.Eval
