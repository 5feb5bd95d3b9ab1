import BuildScript.Proofs.Storage.Reached
import BuildScript.Proofs.Typing.Evaluation

/-!
Calls and expressions on typed machines. A parameter gets a slot of exactly its type, its own or
that of the argument, before the body of a function begins; with that, and one lemma for each form
of expression, the evaluation of any expression is safe where the running of bodies is.
-/

namespace BuildScript

open Eval (Safe Secures IsValue)

/-- Bodies are run safely and answers of the embedding program are values of the machine. -/
structure Context.Secures (ctx : Context) : Prop where
  runBody : ∀ held lines inFunction (m : Machine), m.Typed →
    Safe m (fun m flow => flow.Typed m) (ctx.runBody held lines inFunction m)
  callHost : ∀ held entry args (m : Machine), m.Typed →
    Safe m IsValue (ctx.callHost held entry args m)

namespace Eval

variable {α : Type} {ctx : Context} {m : Machine}

/-! ### Built-in functions -/

theorem plain_value {value : Value} (h : value.Plain) : IsValue m value := h.typed

theorem atom_value {atom : Atom} (h : atom.receiver? = none) : IsValue m (.atom atom) :=
  plain_value ⟨atom, rfl, h⟩

theorem printing_secures (args : List Value) {act : Machine → String → Machine}
    (hact : ∀ text, m.Aside (act m text)) : Secures ctx m (printing args act) IsValue := by
  refine .check fun text _ => ?_
  exact .bind (.aside (Q := fun _ _ => True) (hact text) trivial) fun _ _ _ _ _ =>
    .pure (atom_value rfl)

theorem fileOperation_secures (operation : FileSystem → FileSystem × Option IoError) :
    Secures ctx m (fileOperation operation) IsValue := by
  refine .read fun _ => ?_
  exact .bind (.aside (Q := fun _ _ => True) (.of_env rfl rfl) trivial) fun _ _ _ _ _ =>
    .pure (atom_value rfl)

theorem pathOperation_secures (builtin : Builtin) (args : List Value)
    (operation : FileSystem → String → FileSystem × Option IoError) :
    Secures ctx m (pathOperation builtin args operation) IsValue :=
  .check fun _ _ => .read fun _ => fileOperation_secures _

theorem transfer_secures (builtin : Builtin) (args : List Value)
    (operation : FileSystem → String → String → FileSystem × Option IoError) :
    Secures ctx m (transfer builtin args operation) IsValue :=
  .check fun _ _ => .check fun _ _ => .read fun _ => fileOperation_secures _

theorem changeMode_secures (args : List Value) : Secures ctx m (changeMode args) IsValue := by
  refine .check fun path _ => .check fun mode _ => .read fun _ => ?_
  split
  · exact .pure (atom_value rfl)
  · exact fileOperation_secures _

theorem listFiles_secures (args : List Value) : Secures ctx m (listFiles args) IsValue := by
  refine .check fun pattern _ => .read fun _ => .pure ?_
  refine Value.Typed.array ?_ (fun h => by cases h) ?_
  · rintro _ hmem
    obtain ⟨name, -, rfl⟩ := List.mem_map.mp hmem
    rfl
  · rintro _ hmem
    obtain ⟨name, -, rfl⟩ := List.mem_map.mp hmem
    exact atom_value rfl

theorem modificationTime_secures (args : List Value) :
    Secures ctx m (modificationTime args) IsValue := by
  refine .check fun path _ => .read fun _ => ?_
  split
  · exact .raise _
  · split
    · exact .raise _
    · exact .check fun seconds _ => .pure (atom_value rfl)

theorem isDefined_secures (operands : List Operand) :
    Secures ctx m (isDefined operands) IsValue := by
  unfold isDefined
  split
  · exact .raise _
  · exact .pure (atom_value rfl)
  · split
    · split
      · exact .raise _
      · exact .pure (atom_value rfl)
    · exact .read fun _ => .pure (atom_value rfl)
    · exact .pure (atom_value rfl)

/-- A file runs like a body, and what is restored after it has nothing to do with storage. -/
theorem includeFile_secures (h : ctx.Secures) (path : String) :
    Secures ctx m (includeFile path) fun _ _ => True := by
  intro hm held
  rw [includeFile_apply]
  split
  · exact ⟨hm, .refl m, fun _ _ => trivial⟩
  · split
    · exact ⟨hm, .refl m, fun _ _ => trivial⟩
    · rename_i text _
      let start := opened (m.scriptPath path) { m with includeDepth := m.includeDepth + 1 }
      have hstart : m.Aside start := .of_env rfl rfl
      have hbody := h.runBody held (Text.SourceLine.split text) false start (hstart.typed hm)
      have hclosed (run : Except Fault Flow × Machine) : run.2.Aside (closed run) := by
        unfold closed
        split <;> exact .of_env rfl rfl
      have hafter := hclosed (ctx.runBody held (Text.SourceLine.split text) false start)
      have hsettles := hstart.settles.trans (hbody.settles.trans hafter.settles)
      have htyped := hafter.typed hbody.typed
      exact ⟨⟨htyped.memory, htyped.scopes⟩, ⟨hsettles.classes, hsettles.memory⟩,
        fun _ _ => trivial⟩

theorem argument_typed {args : List Value} (hargs : ∀ arg ∈ args, IsValue m arg) {index : Nat}
    {value : Value} (h : Arguments.value args index = .ok value) : IsValue m value := by
  unfold Arguments.value at h
  split at h
  · rename_i found hfound
    unfold Value.require at h
    split at h
    · cases h
    · cases h
      exact hargs _ (List.mem_of_getElem? hfound)
  · cases h

theorem runBuiltin_secures (h : ctx.Secures) (builtin : Builtin) {operands : List Operand}
    (hoperands : ∀ operand ∈ operands, operand.Typed m) :
    Secures ctx m (runBuiltin builtin operands) IsValue := by
  refine .read fun hm => ?_
  have hargs : ∀ arg ∈ operands.map (valueIn m), IsValue m arg := by
    rintro _ hmem
    obtain ⟨operand, hoperand, rfl⟩ := List.mem_map.mp hmem
    exact valueIn_typed hm (hoperands operand hoperand)
  generalize operands.map (valueIn m) = args at hargs
  have hcast (target : DataType) : Secures ctx m (Eval.ofExcept (do
      (← Arguments.value args 0).convert target)) IsValue := by
    refine .ofExcept fun value hvalue => ?_
    cases hfirst : Arguments.value args 0 with
    | error e =>
      rw [hfirst] at hvalue
      cases hvalue
    | ok first =>
      rw [hfirst] at hvalue
      exact ((argument_typed hargs hfirst).convert hvalue).1
  cases builtin with
  | print => exact printing_secures _ fun _ => .of_env rfl rfl
  | printLine =>
    dsimp only
    split
    · exact .bind (.aside (Q := fun _ _ => True) (.of_env rfl rfl) trivial) fun _ _ _ _ _ =>
        .pure (atom_value rfl)
    · exact printing_secures _ fun _ => .of_env rfl rfl
  | warning | error | debug => exact printing_secures _ fun _ => .of_env rfl rfl
  | typeOf | castString => exact .check fun value _ => .pure (atom_value rfl)
  | castBool | castInt | castFloat => exact hcast _
  | includeFile =>
    refine .check fun path _ => ?_
    exact .bind (includeFile_secures h path) fun ok _ _ _ _ => .pure (atom_value rfl)
  | listFiles => exact listFiles_secures _
  | defined => exact isDefined_secures operands
  | copyFile | moveFile => exact transfer_secures _ _ _
  | deleteFile | makeDir | makePath | makeFile => exact pathOperation_secures _ _ _
  | changeMode => exact changeMode_secures _
  | modificationTime => exact modificationTime_secures _

theorem callBuiltin_secures (h : ctx.Secures) (builtin : Builtin) {args : List Operand}
    (hargs : ∀ arg ∈ args, arg.Typed m) :
    Secures ctx m (callBuiltin builtin args) fun m' operand => operand.Typed m' := by
  unfold callBuiltin
  split
  · exact .bind (runBuiltin_secures h builtin hargs) fun value _ _ _ hvalue => .pure hvalue
  · exact .raise _

/-! ### Functions -/

/-- What a parameter of a type is bound to: a slot of exactly the type, or a value of it. -/
def Bound.Fits (m : Machine) (type : DataType) : Bound → Prop
  | .shared slot => slot.index < m.env.memory.cells.size ∧
    (type ≠ .void → m.env.memory.typeAt slot = type)
  | .fresh value => IsValue m value ∧ (type ≠ .void → value.type = type)

theorem Bound.Fits.mono {m m' : Machine} (h : m.Settles m') {type : DataType} {bound : Bound}
    (hfits : bound.Fits m type) : bound.Fits m' type := by
  cases bound with
  | shared slot =>
    refine ⟨Nat.lt_of_lt_of_le hfits.1 h.memory.cells, fun htype => ?_⟩
    have hsame := hfits.2 htype
    rw [h.memory.typeAt slot hfits.1 (by rwa [hsame]), hsame]
  | fresh value => exact ⟨hfits.1.mono h.realm, hfits.2⟩

/-- What a list of parameters is bound to, each one to what fits it. -/
def Suits (m : Machine) (params : List Parameter) (bound : List (String × Bound)) : Prop :=
  List.Forall₂ (fun param found => found.1 = param.name ∧ Bound.Fits m param.type found.2)
    params bound

theorem Suits.mono {m m' : Machine} (h : m.Settles m') {params : List Parameter}
    {bound : List (String × Bound)} (hsuits : Suits m params bound) : Suits m' params bound :=
  hsuits.imp fun _ _ hfits => ⟨hfits.1, hfits.2.mono h⟩

/-- An argument made ready fits its parameter. -/
theorem boundFor_fits (hm : m.Typed) {function : String} {position : Nat} {param : Parameter}
    {arg : Operand} {bound : Bound} (harg : arg.Typed m)
    (h : boundFor m function position param arg = .ok bound) : bound.Fits m param.type := by
  unfold boundFor at h
  dsimp only at h
  split at h
  · rename_i slot _
    split at h
    · rename_i hsame
      cases h
      refine ⟨harg, fun htype => ?_⟩
      rcases (Bool.or_eq_true _ _).mp hsame with hvoid | hfound
      · exact absurd (eq_of_beq hvoid) htype
      · exact (eq_of_beq hfound).symm
    · cases h
  · cases h
  · split at h
    · rename_i hvoid
      cases h
      exact ⟨valueIn_typed hm harg, fun htype => absurd (eq_of_beq hvoid) htype⟩
    · split at h
      · obtain ⟨value, hconvert, rfl⟩ := ok_of_map_ok h
        obtain ⟨htyped, htype⟩ := (valueIn_typed hm harg).convert hconvert
        exact ⟨htyped, fun _ => htype⟩
      · cases h

/-- Making arguments ready changes nothing, and each of them fits its parameter. -/
theorem bindAll_secures (function : String) (position : Nat) {pairs : List (Parameter × Operand)}
    (hpairs : ∀ pair ∈ pairs, pair.2.Typed m) :
    Secures ctx m (bindAll function position pairs) fun m' bound => m' = m ∧
      Suits m (pairs.map (·.1)) bound := by
  induction pairs generalizing position with
  | nil => exact .pure ⟨rfl, .nil⟩
  | cons pair rest ih =>
    obtain ⟨hpair, hrest⟩ := List.forall_mem_cons.mp hpairs
    refine .bind (require_secures pair.2) ?_
    rintro _ _ - - ⟨rfl, rfl, -⟩
    refine .read fun hm => .check fun bound hbound => ?_
    refine .bind (ih (position + 1) hrest) ?_
    rintro others _ - - ⟨rfl, hothers⟩
    exact .pure ⟨rfl, .cons ⟨rfl, boundFor_fits hm hpair hbound⟩ hothers⟩

theorem defineReceiver_secures {id : ObjectId} (hid : Exists m id) :
    Secures ctx m (defineReceiver id) fun _ _ => True := by
  refine .read fun hm => ?_
  have hgrows := Memory.grows_push m.env.memory (.object id)
  refine .bind (.store
    (Q := fun m' _ => (Operand.reference (m.env.memory.push (.object id)).1).Typed m')
    (fun _ => ⟨⟨hm.memory.push hid, ?_⟩, List.prefix_rfl, hgrows.settles hm.memory⟩) ?_) ?_
  · exact fun slot hslot => Nat.lt_of_lt_of_le (hm.scopes slot hslot) hgrows.cells
  · show _ < (m.env.memory.push (.object id)).2.cells.size
    rw [Memory.push_cells]
    exact Nat.lt_succ_self _
  · exact fun _ m' _ _ hslot => (bind_secures "this" hslot).weaken fun _ _ _ _ _ => trivial

/-- What a parameter is bound to once it has been bound: a slot of exactly its type. -/
def Received (m : Machine) (name : String) (type : DataType) : Prop :=
  ∃ slot, m.env.scopes.lookupCurrent name = some slot ∧ slot.index < m.env.memory.cells.size ∧
    (type ≠ .void → m.env.memory.typeAt slot = type)

/-- Names that were bound in the innermost scope are bound there still. -/
def Rebinds (m m' : Machine) : Prop :=
  ∀ name slot, m.env.scopes.lookupCurrent name = some slot →
    m'.env.scopes.lookupCurrent name = some slot

theorem Rebinds.of_added {m m' : Machine} {name : String} {slot : Slot}
    (hscopes : m'.env.scopes = m.env.scopes.addBinding name slot)
    (hfree : m.env.scopes.lookupCurrent name = none) : Rebinds m m' := by
  intro other found hfound
  rw [hscopes, ScopeStack.lookupCurrent_addBinding, if_neg]
  · exact hfound
  · rintro rfl
    rw [hfree] at hfound
    cases hfound

theorem Received.mono {m m' : Machine} (h : m.Settles m') (hrebinds : Rebinds m m') {name : String}
    {type : DataType} (hreceived : Received m name type) : Received m' name type := by
  obtain ⟨slot, hslot, hbound, htype⟩ := hreceived
  refine ⟨slot, hrebinds name slot hslot, Nat.lt_of_lt_of_le hbound h.memory.cells,
    fun hvalue => ?_⟩
  have hsame := htype hvalue
  rw [h.memory.typeAt slot hbound (by rwa [hsame]), hsame]

/-- Every parameter is bound to a slot of exactly its type. -/
theorem bindParameters_secures {params : List Parameter} {bound : List (String × Bound)}
    (hbound : Suits m params bound) :
    Secures ctx m (bindParameters bound) fun m' _ =>
      (∀ param ∈ params, Received m' param.name param.type) ∧ Rebinds m m' := by
  induction bound generalizing m params with
  | nil =>
    cases hbound
    exact .pure ⟨List.forall_mem_nil _, fun _ _ h => h⟩
  | cons first rest ih =>
    obtain _ | ⟨⟨hname, hfits⟩, hrest⟩ := hbound
    rename_i param params
    obtain ⟨name, argument⟩ := first
    subst hname
    -- once the first one is bound, the others neither hide it nor change its type
    have hothers {m₁ : Machine} (hsettles : m.Settles m₁)
        (hreceived : Received m₁ param.name param.type)
        (hrebinds : Rebinds m m₁) : Secures ctx m₁ (bindParameters rest) fun m' _ =>
          (∀ other ∈ param :: params, Received m' other.name other.type) ∧ Rebinds m m' := by
      refine (ih (Suits.mono hsettles hrest)).weaken ?_
      rintro m' _ - hlater ⟨hreceived', hrebinds'⟩
      refine ⟨List.forall_mem_cons.mpr ⟨hreceived.mono hlater hrebinds', hreceived'⟩, ?_⟩
      exact fun name slot hslot => hrebinds' name slot (hrebinds name slot hslot)
    cases argument with
    | shared slot =>
      refine .bind (bind_secures param.name hfits.1) ?_
      rintro _ m₁ - hsettles ⟨henv, hfree⟩
      have hscopes : m₁.env.scopes = m.env.scopes.addBinding param.name slot := by rw [henv]
      have hmemory : m₁.env.memory = m.env.memory := by rw [henv]
      refine hothers hsettles ⟨slot, ?_, ?_⟩ (.of_added hscopes hfree)
      · rw [hscopes, ScopeStack.lookupCurrent_addBinding, if_pos rfl]
      · rw [hmemory]
        exact hfits
    | fresh value =>
      refine .bind (define_secures param.name hfits.1) ?_
      rintro slot m₁ - hsettles ⟨hmade, hscopes, hfree⟩
      refine hothers hsettles ⟨slot, ?_, hmade.1, fun htype => ?_⟩ (.of_added hscopes hfree)
      · rw [hscopes, ScopeStack.lookupCurrent_addBinding, if_pos rfl]
      · rw [hmade.2, hfits.2 htype]

/-- The receiver and the parameters of a call are bound. -/
theorem bindCall_secures {receiver : Option ObjectId} {params : List Parameter}
    {bound : List (String × Bound)} (hreceiver : ∀ id, receiver = some id → Exists m id)
    (hbound : Suits m params bound) :
    Secures ctx m (bindCall receiver bound) fun m' _ =>
      ∀ param ∈ params, Received m' param.name param.type := by
  have hparams {m₁ : Machine} (hsettles : m.Settles m₁) :
      Secures ctx m₁ (bindParameters bound) fun m' _ =>
        ∀ param ∈ params, Received m' param.name param.type :=
    (bindParameters_secures (hbound.mono hsettles)).weaken fun _ _ _ _ h => h.1
  cases receiver with
  | none => exact hparams (.refl m)
  | some id =>
    exact .bind (defineReceiver_secures (hreceiver id rfl)) fun _ _ _ hsettles _ => hparams hsettles

theorem callBody_secures (h : ctx.Secures) {receiver : Option ObjectId} {params : List Parameter}
    {bound : List (String × Bound)} (hreceiver : ∀ id, receiver = some id → Exists m id)
    (hbound : Suits m params bound) (lines : List Text.SourceLine) :
    Secures ctx m (callBody receiver bound lines) fun m' flow => flow.Typed m' := by
  have hlines {m₁ : Machine} (hsettles : m.Settles m₁) : Secures ctx m₁ (do
      bindParameters bound
      runBody lines true) fun m' flow => flow.Typed m' :=
    .bind (bindParameters_secures (hbound.mono hsettles)) fun _ m' _ _ _ hm held =>
      h.runBody held lines true m' hm
  cases receiver with
  | none => exact hlines (.refl m)
  | some id =>
    exact .bind (defineReceiver_secures (hreceiver id rfl)) fun _ _ _ hsettles _ => hlines hsettles

theorem entered_aside (file : String) (m : Machine) : m.Aside (entered file m) where
  memory := rfl
  classes := rfl
  scopes _ hslot := (Environment.Trims.push m.env.scopes rfl : Environment.Trims 0 _ _).slots hslot

theorem left_aside (caller m : Machine) : m.Aside (left caller m) where
  memory := rfl
  classes := rfl
  scopes _ hslot := (Environment.Trims.truncate m.env.scopes (Nat.zero_le _)).slots hslot

/-- A call is entered and left without a change to storage. -/
theorem inFrame_secures (file : String) {body : Eval Flow}
    (h : Secures ctx (entered file m) body fun m' flow => flow.Typed m') :
    Secures ctx m (inFrame file body) fun m' flow => flow.Typed m' := by
  intro hm held
  rw [inFrame_apply]
  have hentered := entered_aside file m
  have hbody := h (hentered.typed hm) held
  have hleft := left_aside m (body { ctx with held } (entered file m)).2
  exact ⟨hleft.typed hbody.typed,
    (hentered.settles.trans hbody.settles).trans hleft.settles, hbody.result⟩

theorem checkCallDepth_secures : Secures ctx m checkCallDepth fun m' _ => m' = m := by
  refine .read fun _ => ?_
  split
  · exact .raise _
  · exact .pure rfl

theorem givenBack_typed {flow : Flow} {given : Value} (hflow : flow.Typed m)
    (h : givenBack flow = some given) : IsValue m given := by
  unfold givenBack at h
  split at h
  · exact hflow given h
  · cases h

/-- A function returns a value of its return type, an empty array having taken it. -/
theorem checkReturn_typed {function : UserFunction} {flow : Flow} {value : Value}
    (hflow : flow.Typed m)
    (h : checkReturn function (givenBack flow) = .ok value) : IsValue m value := by
  unfold checkReturn at h
  split at h
  · cases h
    exact atom_value rfl
  · cases h
  · cases h
  · rename_i hsome _
    split at h
    · cases h
      exact givenBack_typed hflow hsome
    · split at h
      · exact ((givenBack_typed hflow hsome).convert h).1
      · cases h

theorem callUser_secures (h : ctx.Secures) (function : UserFunction) {receiver : Option ObjectId}
    (hreceiver : ∀ id, receiver = some id → Exists m id) {args : List Operand}
    (hargs : ∀ arg ∈ args, arg.Typed m) :
    Secures ctx m (callUser function receiver args) fun m' operand => operand.Typed m' := by
  refine .bind checkCallDepth_secures ?_
  rintro _ _ - - rfl
  dsimp only
  split
  · exact .bind (.raise (Q := fun _ _ => False) _) fun _ _ _ _ hfalse => hfalse.elim
  · rename_i hcount
    have hlength : function.params.length ≤ args.length := by
      simp only [bne_iff_ne, ne_eq, Decidable.not_not] at hcount
      exact Nat.le_of_eq hcount.symm
    refine .bind (bindAll_secures function.name 1 fun pair hpair =>
      hargs pair.2 (List.of_mem_zip hpair).2) ?_
    rintro bound m₁ - - ⟨rfl, hbound⟩
    rw [List.map_fst_zip hlength] at hbound
    have hentered := (entered_aside function.file m₁).settles
    have hexists (id : ObjectId) (hid : receiver = some id) :
        Exists (entered function.file m₁) id :=
      hreceiver id hid
    have hbody := callBody_secures h hexists (hbound.mono hentered) function.body
    refine .bind (inFrame_secures function.file hbody) fun flow m₂ _ _ hflow => ?_
    exact .check fun value hvalue => .pure (checkReturn_typed hflow hvalue)

theorem callProcedure_secures (h : ctx.Secures) (procedure : Procedure) (args : List Operand) :
    Secures ctx m (callProcedure procedure args) fun m' operand => operand.Typed m' := by
  have hrest : Secures ctx m (inFrame procedure.file (callBody none [] procedure.body) >>=
      procedureResult procedure) fun m' operand => operand.Typed m' := by
    have hnone : Suits (entered procedure.file m) [] [] := .nil
    have hbody : Secures ctx (entered procedure.file m) (callBody none [] procedure.body)
        fun m' flow => flow.Typed m' :=
      callBody_secures h (fun _ heq => by cases heq) hnone procedure.body
    refine .bind (inFrame_secures procedure.file hbody) fun flow m₁ _ _ _ => ?_
    unfold procedureResult
    split
    · exact .raise _
    · exact .pure (plain_typed rfl _)
  refine .bind checkCallDepth_secures ?_
  rintro _ _ - - rfl
  dsimp only
  split
  · exact .bind (.raise (Q := fun _ _ => False) _) fun _ _ _ _ hfalse => hfalse.elim
  · exact hrest

theorem sizeOf_plain {args : List Value} {value : Value} (h : sizeOf args = .ok value) :
    value.Plain := by
  unfold sizeOf at h
  split at h
  · cases h
  · split at h
    · obtain ⟨n, -, rfl⟩ := ok_of_map_ok h
      exact ⟨_, rfl, rfl⟩
    · cases h

theorem callNative_secures (h : ctx.Secures) (native : NativeFunction) (receiver : Option ObjectId)
    (args : List Operand) :
    Secures ctx m (callNative native receiver args) fun m' operand => operand.Typed m' := by
  have hrest (anchors : List Anchor) (args : List Operand) :
      Secures ctx m (runNative native anchors args) fun m' operand => operand.Typed m' := by
    unfold runNative
    split
    · exact .read fun _ => .check fun value hvalue => .pure (plain_value (sizeOf_plain hvalue))
    · refine .bind (.holding anchors (Q := IsValue) fun hm held => h.callHost held _ args m hm)
        fun value m' _ _ hvalue => .pure hvalue
  refine .read fun _ => ?_
  cases receiver with
  | some id =>
    dsimp only
    split
    · exact .bind (.raise (Q := fun _ _ => False) _) fun _ _ _ _ hfalse => hfalse.elim
    · exact hrest _ _
  | none =>
    dsimp only
    split
    · exact .bind (.raise (Q := fun _ _ => False) _) fun _ _ _ _ hfalse => hfalse.elim
    · exact hrest _ _

theorem callFunction_secures (h : ctx.Secures) (callable : Callable) {receiver : Option ObjectId}
    (hreceiver : ∀ id, receiver = some id → Exists m id) {args : List Operand}
    (hargs : ∀ arg ∈ args, arg.Typed m) :
    Secures ctx m (callFunction callable receiver args) fun m' operand => operand.Typed m' := by
  cases callable with
  | builtin builtin => exact callBuiltin_secures h builtin hargs
  | native native => exact callNative_secures h native receiver args
  | user function => exact callUser_secures h function hreceiver hargs

theorem callValue_secures (h : ctx.Secures) {function : Value} (hfunction : IsValue m function)
    {args : List Operand} (hargs : ∀ arg ∈ args, arg.Typed m) :
    Secures ctx m (callValue function args) fun m' operand => operand.Typed m' := by
  unfold callValue
  split
  · exact callFunction_secures h _ (fun _ heq => by cases heq) hargs
  · rename_i callable id
    have hid : Exists m id := by
      cases hfunction with
      | atom hreceiver => exact hreceiver id rfl
    refine .read fun _ => .bind (Q := fun m' _ => m' = m)
      (fun hm _ => ⟨hm, .refl m, fun _ _ => rfl⟩) ?_
    rintro anchors _ - - rfl
    split
    · refine callFunction_secures h _ ?_ hargs
      rintro _ ⟨⟩
      exact hid
    · exact .raise _
  · exact callProcedure_secures h _ args
  · exact .raise _

/-! ### Expressions -/

/-- From every typed machine, the evaluation is safe and its operand is what it is said to be. -/
def Gives (ctx : Context) (x : Eval Operand) : Prop :=
  ∀ m, Secures ctx m x fun m' operand => operand.Typed m'

/-- From every typed machine, the evaluation is safe and so are all its operands. -/
def GivesAll (ctx : Context) (x : Eval (List Operand)) : Prop :=
  ∀ m, Secures ctx m x fun m' operands => ∀ operand ∈ operands, operand.Typed m'

theorem Gives.value {x : Eval Operand} (hx : Gives ctx x) (m : Machine) :
    Secures ctx m (valueBy x) HasValue := valueBy_secures (hx m)

theorem callObject_secures (h : ctx.Secures) {target : Operand} {id : ObjectId} (hid : Exists m id)
    (name : String) {args : Eval (List Operand)} (hargs : GivesAll ctx args) :
    Secures ctx m (callObject target id name args) fun m' operand => operand.Typed m' := by
  refine .bind (instantiated_secures id name) ?_
  rintro object m₁ hm₁ - ⟨rfl, rfl⟩
  dsimp only
  split
  · refine .bind (.holding _ (hargs m₁)) fun operands m₂ _ hsettles hoperands => ?_
    refine .holding _ (callFunction_secures h _ ?_ hoperands)
    rintro _ ⟨⟩
    exact Nat.lt_of_lt_of_le hid hsettles.memory.objects
  · rename_i hslot
    refine .bind (valueOf_secures (field_typed hm₁ hid hslot)) fun function m₂ _ _ hfunction => ?_
    refine .holding _ (.bind (hargs m₂) fun operands m₃ _ hsettles hoperands => ?_)
    exact callValue_secures h (hfunction.1.mono hsettles.realm) hoperands
  · exact .raise _

theorem callMember_secures (h : ctx.Secures) {target : Operand} (htarget : target.Typed m)
    (name : String) {args : Eval (List Operand)} (hargs : GivesAll ctx args) :
    Secures ctx m (callMember target name args) fun m' operand => operand.Typed m' := by
  refine .bind (objectOf_secures htarget) fun found m₁ _ hsettles hfound => ?_
  cases found with
  | some id => exact callObject_secures h (hfound id rfl) name hargs
  | none =>
    refine .read fun _ => ?_
    dsimp only
    split
    · exact .raise _
    · refine .bind (.holding _ (hargs m₁)) fun operands m₂ _ hlater hoperands => ?_
      refine callFunction_secures h _ (fun _ heq => by cases heq) ?_
      exact List.forall_mem_cons.mpr ⟨htarget.mono (hsettles.trans hlater), hoperands⟩

section

variable {x container index object target value callee left right : Eval Operand}
  {args : Eval (List Operand)}

theorem logicWith_gives (op : Operator) (hleft : Gives ctx left) (hright : Gives ctx right) :
    Gives ctx (logicWith op left right) := by
  intro m
  refine .bind (hleft.value m) fun _ m₁ _ _ _ => .check fun first _ => ?_
  split
  · exact .pure (plain_typed rfl _)
  · exact .bind (hright.value m₁) fun _ _ _ _ _ => .check fun second _ => .pure (plain_typed rfl _)

theorem binaryWith_gives (op : Operator) (hleft : Gives ctx left) (hright : Gives ctx right) :
    Gives ctx (binaryWith op left right) := by
  intro m
  refine .bind (hleft.value m) fun a m₁ _ _ ha => ?_
  refine .bind (hright.value m₁) fun b m₂ _ hsettles hb => ?_
  refine .check fun value hvalue => .pure ?_
  exact Operation.binary_typed (ha.1.mono hsettles.realm) hb.1 hb.2 hvalue

theorem unaryWith_gives (op : Operator) (hx : Gives ctx x) : Gives ctx (unaryWith op x) := by
  intro m
  refine .bind (hx.value m) fun a m₁ _ _ _ => .check fun value hvalue => .pure ?_
  exact plain_value (Operation.unary_plain hvalue)

theorem indexWith_gives (hcontainer : Gives ctx container) (hindex : Gives ctx index) :
    Gives ctx (indexWith container index) := by
  intro m
  refine .bind (hcontainer m) fun operand m₁ _ _ hoperand => ?_
  refine .bind (require_secures operand) ?_
  rintro _ m₁ - - ⟨rfl, rfl, -⟩
  refine .bind (.holding _ (hindex.value m₁)) fun position m₂ _ hsettles _ => ?_
  exact .check fun i _ => element_secures (hoperand.mono hsettles) i

theorem declareWith_gives (type : DataType) (name : String) (hvalue : Gives ctx value) :
    Gives ctx (declareWith type name value) := by
  intro m
  refine .bind (hvalue.value m) fun initial m₁ _ _ hinitial => ?_
  refine (declare_secures type name ?_).weaken ?_
  · rintro _ ⟨⟩
    exact hinitial
  · rintro m₂ _ _ _ ⟨slot, rfl, hslot, -⟩
    exact hslot

/-- The value a compound assignment stores is computed from two values of the machine. -/
theorem assignSource_secures (op : Operator) {target : Operand} {source : Value}
    (htarget : target.Typed m) (hsource : HasValue m source) :
    Secures ctx m (assignSource op target source)
      fun m' operand => operand = target ∧ operand.Typed m' := by
  unfold assignSource
  split
  · exact assign_secures htarget hsource.1
  · refine .bind (valueOf_secures htarget) fun current m₁ _ hsettles hcurrent => ?_
    refine .check fun value hvalue => ?_
    refine assign_secures (htarget.mono hsettles) ?_
    exact Operation.binary_typed hcurrent.1 (hsource.1.mono hsettles.realm) hsource.2 hvalue

theorem assignWith_gives (op : Operator) (htarget : Gives ctx target) (hvalue : Gives ctx value) :
    Gives ctx (assignWith op target value) := by
  intro m
  have hrest (target : Operand) (m₁ : Machine) (htarget : target.Typed m₁) :
      Secures ctx m₁ (holding target.anchors (Eval.valueBy value) >>= assignSource op target)
        fun m' operand => operand.Typed m' := by
    refine .bind (.holding _ (hvalue.value m₁)) fun source m₂ _ hsettles hsource => ?_
    exact (assignSource_secures op (htarget.mono hsettles) hsource).weaken fun _ _ _ _ h => h.2
  refine .bind (htarget m) fun target m₁ _ _ htarget => ?_
  cases target with
  | reference slot => exact hrest _ m₁ htarget
  | temporary value isLiteral =>
    refine .bind (require_secures _) ?_
    rintro _ m₁ - - ⟨rfl, rfl, -⟩
    exact hrest _ m₁ htarget

theorem memberWith_gives (hobject : Gives ctx object) (name : String) :
    Gives ctx (memberWith object name) := by
  intro m
  refine .bind (hobject m) fun operand m₁ _ _ hoperand => ?_
  refine .bind (require_secures operand) ?_
  rintro _ m₁ - - ⟨rfl, rfl, -⟩
  exact memberOf_secures hoperand name

theorem callMemberWith_gives (h : ctx.Secures) (hobject : Gives ctx object) (name : String)
    (hargs : GivesAll ctx args) : Gives ctx (callMemberWith object name args) := by
  intro m
  refine .bind (hobject m) fun operand m₁ _ _ hoperand => ?_
  refine .bind (require_secures operand) ?_
  rintro _ m₁ - - ⟨rfl, rfl, -⟩
  exact callMember_secures h hoperand name hargs

theorem callWith_gives (h : ctx.Secures) (hcallee : Gives ctx callee) (hargs : GivesAll ctx args) :
    Gives ctx (callWith callee args) := by
  intro m
  refine .bind (hcallee.value m) fun function m₁ _ _ hfunction => ?_
  refine .bind (hargs m₁) fun operands m₂ _ hsettles hoperands => ?_
  exact callValue_secures h (hfunction.1.mono hsettles.realm) hoperands

theorem castWith_gives (h : ctx.Secures) (type : DataType) (hargs : GivesAll ctx args) :
    Gives ctx (castWith type args) := by
  intro m
  unfold castWith
  split
  · exact .raise _
  · exact .bind (hargs m) fun operands m₁ _ _ hoperands => callBuiltin_secures h _ hoperands

end

mutual

/-- Every expression is evaluated safely and gives what it is said to give. -/
theorem evalExpr_gives (h : ctx.Secures) : (expr : Expr) → Gives ctx (evalExpr expr)
  | .literal value => by
    unfold evalExpr
    refine fun m => .pure (plain_typed ?_ _)
    cases value <;> rfl
  | .identifier name => by
    unfold evalExpr
    exact fun m => .read fun hm => .pure (resolve_typed hm name)
  | .ownMember name => by
    unfold evalExpr
    exact fun m => .bind receiver_secures fun target m₁ _ _ htarget => memberOf_secures htarget name
  | .declare type name => by
    unfold evalExpr
    refine fun m => (declare_secures type name fun _ heq => by cases heq).weaken ?_
    rintro m₁ _ _ _ ⟨slot, rfl, hslot, -⟩
    exact hslot
  | .arrayLiteral elements => by
    unfold evalExpr
    intro m
    refine .bind (evalValues_secures h elements m) fun values m₁ _ _ hvalues => ?_
    exact .check fun value hvalue => .pure (arrayOf_typed hvalues hvalue)
  | .unary op operand => by
    unfold evalExpr
    exact unaryWith_gives op (evalExpr_gives h operand)
  | .binary op left right => by
    have hleft := evalExpr_gives h left
    have hright := evalExpr_gives h right
    unfold evalExpr
    split
    · exact indexWith_gives hleft hright
    · split
      · exact logicWith_gives op hleft hright
      · split
        · split
          · exact declareWith_gives _ _ hright
          · exact assignWith_gives _ hleft hright
        · exact binaryWith_gives op hleft hright
  | .member object name => by
    unfold evalExpr
    exact memberWith_gives (evalExpr_gives h object) name
  | .call callee arguments => by
    have hargs := evalArguments_gives h arguments
    unfold evalExpr
    split
    · rename_i object name
      exact callMemberWith_gives h (evalExpr_gives h object) name hargs
    · exact fun m => .bind receiver_secures fun target m₁ _ _ htarget =>
        callMember_secures h htarget _ hargs
    · exact callWith_gives h (evalExpr_gives h callee) hargs
  | .cast type arguments => by
    unfold evalExpr
    exact castWith_gives h type (evalArguments_gives h arguments)

theorem evalValues_secures (h : ctx.Secures) : (exprs : List Expr) → (m : Machine) →
    Secures ctx m (evalValues exprs) fun m' values => ∀ value ∈ values, HasValue m' value
  | [], m => by
    unfold evalValues
    exact .pure (List.forall_mem_nil _)
  | expr :: rest, m => by
    unfold evalValues
    refine .bind ((evalExpr_gives h expr).value m) fun value m₁ _ _ hvalue => ?_
    refine .bind (evalValues_secures h rest m₁) fun values m₂ _ hsettles hvalues => .pure ?_
    exact List.forall_mem_cons.mpr ⟨⟨hvalue.1.mono hsettles.realm, hvalue.2⟩, hvalues⟩

theorem evalArguments_gives (h : ctx.Secures) :
    (exprs : List Expr) → GivesAll ctx (evalArguments exprs)
  | [] => by
    unfold evalArguments
    exact fun m => .pure (List.forall_mem_nil _)
  | expr :: rest => by
    unfold evalArguments
    intro m
    refine .bind (evalExpr_gives h expr m) fun operand m₁ _ _ hoperand => ?_
    refine .bind (.holding _ (evalArguments_gives h rest m₁))
      fun operands m₂ _ hsettles hoperands => ?_
    exact .pure (List.forall_mem_cons.mpr ⟨hoperand.mono hsettles, hoperands⟩)

end

end Eval

end BuildScript
