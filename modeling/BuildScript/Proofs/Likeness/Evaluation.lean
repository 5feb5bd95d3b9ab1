import BuildScript.Proofs.Likeness.Coupling

/-!
Expressions evaluated side by side: every step of an evaluation is coupled with the same step on the
other side, and so is the evaluation of any expression.
-/

namespace BuildScript.Eval

variable {R : Sight → Machine → Machine → Prop} {ctx ctx' : Context} {s : Sight} {α β : Type}
  {A : Sight → α → β → Prop}

namespace Resemblance

/-- The machine is read on both sides. -/
theorem read (h : Resemblance R) {f : Machine → Eval α} {g : Machine → Eval β}
    (hf : ∀ {m m'}, m.Akin s m' → Couples R ctx ctx' s A (f m) (g m')) :
    Couples R ctx ctx' s A (machine >>= f) (machine >>= g) :=
  fun held m m' hR => hf (h.same hR) held m m' hR

/-- Storage changes on both sides. -/
theorem setEnv (h : Resemblance R) {f g : Machine → Environment}
    (hf : ∀ {m m' : Machine}, m.Akin s m' → (f m).recast s.left = (g m').recast s.right) :
    Couples R ctx ctx' s Same (Eval.update fun m => { m with env := f m })
      (Eval.update fun m => { m with env := g m }) := by
  apply Couples.step
  intro m m' hR
  exact h.silent hR (withEnv_akin (h.same hR) (hf (h.same hR)))
    ⟨rfl, rfl, rfl, rfl, rfl, rfl⟩ ⟨rfl, rfl, rfl, rfl, rfl, rfl⟩

theorem define (h : Resemblance R) (name : String) {v v' : Value} (hv : v.Akin s v') :
    Couples R ctx ctx' s Same (define name v) (define name v') := by
  apply h.read
  intro m m' hm
  have hdefine : (m.env.define name v).map (fun defined => (defined.1, defined.2.recast s.left)) =
      (m'.env.define name v').map fun defined => (defined.1, defined.2.recast s.right) := by
    rw [← Environment.define_recast, ← Environment.define_recast, env_akin hm, hv]
  refine Couples.checking hdefine fun {defined defined'} hresult => ?_
  obtain ⟨slot, env⟩ := defined
  obtain ⟨slot', env'⟩ := defined'
  obtain ⟨rfl, henv⟩ := Prod.mk.inj hresult
  exact (h.setEnv fun _ => henv).bind fun _ _ => .pure rfl

theorem bindName (h : Resemblance R) (name : String) (slot : Slot) :
    Couples R ctx ctx' s Same (Eval.bind name slot) (Eval.bind name slot) := by
  apply h.read
  intro m m' hm
  have hbind : (m.env.bind name slot).map (Environment.recast s.left) =
      (m'.env.bind name slot).map (Environment.recast s.right) := by
    rw [← Environment.bind_recast, ← Environment.bind_recast, env_akin hm]
  exact Couples.checking hbind fun henv => h.setEnv fun _ => henv

theorem defineReceiver (h : Resemblance R) (id : ObjectId) :
    Couples R ctx ctx' s Same (defineReceiver id) (defineReceiver id) := by
  apply h.read
  intro m m' hm
  have hmemory : m.env.memory.recast s.left = m'.env.memory.recast s.right :=
    congrArg Environment.memory (env_akin hm)
  have hpush := congrArg (Memory.push · (.object id)) hmemory
  change (m.env.memory.recast s.left).push (Content.recast s.left (.object id)) =
    (m'.env.memory.recast s.right).push (Content.recast s.right (.object id)) at hpush
  rw [Memory.push_recast, Memory.push_recast] at hpush
  obtain ⟨hslot, hpushed⟩ := Prod.mk.inj hpush
  dsimp only
  rw [hslot]
  refine (h.setEnv fun {n n'} hn => ?_).bind fun _ _ => h.bindName "this" _
  simp only [Environment.recast, scopes_akin hn, hpushed]

theorem bindParameters (h : Resemblance R) {bound bound' : List (String × Bound)}
    (hbound : Bound.AllAkin s bound bound') :
    Couples R ctx ctx' s Same (bindParameters bound) (bindParameters bound') := by
  induction bound generalizing bound' s with
  | nil =>
    cases bound' with
    | nil => exact .pure rfl
    | cons first' rest' => cases hbound
  | cons first rest ih =>
    cases bound' with
    | nil => cases hbound
    | cons first' rest' =>
      obtain ⟨name, b⟩ := first
      obtain ⟨name', b'⟩ := first'
      obtain ⟨hfirst, hrest⟩ := List.cons.inj hbound
      obtain ⟨rfl, hb⟩ := Prod.mk.inj hfirst
      have hrest : Bound.AllAkin s rest rest' := hrest
      cases b with
      | shared slot =>
        cases b' with
        | fresh w' => cases hb
        | shared slot' =>
          cases hb
          exact (h.bindName name slot).bind fun hst _ => ih (hrest.later hst)
      | fresh w =>
        cases b' with
        | shared slot' => cases hb
        | fresh w' =>
          exact (h.define name (Bound.fresh.inj hb)).bind fun hst _ => ih (hrest.later hst)

theorem bindCall (h : Resemblance R) (receiver : Option ObjectId)
    {bound bound' : List (String × Bound)} (hbound : Bound.AllAkin s bound bound') :
    Couples R ctx ctx' s Same (bindCall receiver bound) (bindCall receiver bound') := by
  cases receiver with
  | none => exact h.bindParameters hbound
  | some id => exact (h.defineReceiver id).bind fun hst _ => h.bindParameters (hbound.later hst)

end Resemblance

namespace Coupling

variable {operand operand' : Operand} {v v' : Value}

theorem valueOf (h : Coupling R ctx ctx') (ho : operand.Akin s operand') :
    Couples R ctx ctx' s Value.Akin (valueOf operand) (valueOf operand') :=
  h.read fun hm => .pure (valueIn_akin hm ho)

theorem require (h : Coupling R ctx ctx') (ho : operand.Akin s operand') :
    Couples R ctx ctx' s Operand.Akin (require operand) (require operand') := by
  apply h.read
  intro m m' hm
  rw [voidIn?_akin hm ho]
  split
  · exact .raise _
  · exact .pure ho

theorem valueBy (h : Coupling R ctx ctx') {x y : Eval Operand}
    (hx : Couples R ctx ctx' s Operand.Akin x y) :
    Couples R ctx ctx' s Value.Akin (valueBy x) (valueBy y) :=
  hx.bind fun _ ho => (h.require ho).bind fun _ ho => h.valueOf ho

theorem stored_akin {type : DataType} (hv : v.Akin s v') :
    (stored type v).map (Value.recast s.left) = (stored type v').map (Value.recast s.right) := by
  unfold stored
  split
  · exact congrArg Except.ok hv
  · rw [← Value.convert_recast, ← Value.convert_recast, hv]

theorem assign (h : Coupling R ctx ctx') (ho : operand.Akin s operand')
    (hv : v.Akin s v') :
    Couples R ctx ctx' s Operand.Akin (assign operand v) (assign operand' v') := by
  cases Operand.kindred ho with
  | @temporary w w' hw isLiteral =>
    have htext : w.text = w'.text := by
      rw [← @Value.text_recast s.left, hw, Value.text_recast]
    unfold Eval.assign
    dsimp only
    rw [htext]
    exact .raise _
  | reference slot =>
    apply h.read
    intro m m' hm
    rw [typeIn_akin hm ho]
    refine Couples.checking (stored_akin hv) fun {w w'} hw => ?_
    refine (h.setEnv fun {m m'} hm => ?_).bind fun _ _ => .pure rfl
    have hwrite := congrArg (Environment.write · slot (w.recast s.left)) (env_akin hm)
    simp only [Environment.write, Environment.recast, Memory.write_recast] at hwrite ⊢
    rw [hwrite, hw, Memory.write_recast]

theorem reportAll (h : Coupling R ctx ctx') (errors : List EvalError) :
    Couples R ctx ctx' s Same (Eval.update (·.reportAll errors)) (Eval.update (·.reportAll errors)) := by
  apply Couples.step
  intro m m' hR
  induction errors generalizing m m' with
  | nil => exact hR
  | cons error rest ih => exact ih _ _ (h.reportMessage hR _)

theorem startOf (h : Coupling R ctx ctx') (type : DataType) (name : String) :
    Couples R ctx ctx' s Value.Akin (startOf type name) (startOf type name) := by
  apply h.read
  intro m m' hm
  have hclasses : m.classes.recast s.left = m'.classes.recast s.right := congrArg Machine.classes hm
  have hstart : ((m.classes.start type).1.map (Value.recast s.left), (m.classes.start type).2) =
      ((m'.classes.start type).1.map (Value.recast s.right), (m'.classes.start type).2) := by
    rw [← ClassTable.start_recast, ← ClassTable.start_recast, hclasses]
  generalize m.classes.start type = start at hstart
  generalize m'.classes.start type = start' at hstart
  obtain ⟨value, faults⟩ := start
  obtain ⟨value', faults'⟩ := start'
  obtain ⟨hvalue, rfl⟩ := Prod.mk.inj hstart
  refine (h.reportAll faults).bind fun hst _ => ?_
  cases value with
  | none =>
    cases value' with
    | none => exact .raise _
    | some w' => cases hvalue
  | some w =>
    cases value' with
    | none => cases hvalue
    | some w' => exact .pure (Value.Akin.later (Option.some.inj hvalue) hst)

theorem declare (h : Coupling R ctx ctx') (type : DataType) (name : String)
    {initial initial' : Option Value} (hinitial : initial.map (Value.recast s.left) =
      initial'.map (Value.recast s.right)) :
    Couples R ctx ctx' s Operand.Akin (declare type name initial)
      (declare type name initial') := by
  have hdefine {t : Sight} {w w' : Value} (_ : s ≤ t) (hw : w.Akin t w') :
      Couples R ctx ctx' t Operand.Akin (do return .reference (← Eval.define name w))
        (do return .reference (← Eval.define name w')) :=
    (h.define name hw).bind fun _ heq => .pure (congrArg Operand.reference heq)
  cases initial with
  | none =>
    cases initial' with
    | none => exact (h.startOf type name).bind hdefine
    | some w' => cases hinitial
  | some w =>
    cases initial' with
    | none => cases hinitial
    | some w' =>
      have hconvert : (w.convert type).map (Value.recast s.left) =
          (w'.convert type).map (Value.recast s.right) := by
        rw [← Value.convert_recast, ← Value.convert_recast, Option.some.inj hinitial]
      exact Couples.checking hconvert fun hw => hdefine le_rfl hw

theorem place (h : Coupling R ctx ctx') (hv : v.Akin s v') :
    Couples R ctx ctx' s Content.Akin (place v) (place v') := by
  apply h.read
  intro m m' hm
  have hmemory : m.env.memory.recast s.left = m'.env.memory.recast s.right :=
    congrArg Environment.memory (env_akin hm)
  have hplace : ((m.env.memory.place v).1.recast s.left, (m.env.memory.place v).2.recast s.left) =
      ((m'.env.memory.place v').1.recast s.right, (m'.env.memory.place v').2.recast s.right) := by
    rw [← Memory.place_recast, ← Memory.place_recast, hmemory, hv]
  obtain ⟨hcontent, hplaced⟩ := Prod.mk.inj hplace
  refine (h.setEnv fun {m m'} hm => ?_).bind fun hst _ => .pure (Content.Akin.later hcontent hst)
  simp only [Environment.recast, scopes_akin hm, hplaced]

theorem objectOf (h : Coupling R ctx ctx') (ho : operand.Akin s operand') :
    Couples R ctx ctx' s Same (objectOf operand) (objectOf operand') := by
  cases Operand.kindred ho with
  | reference slot =>
    apply h.read
    intro m m' hm
    have hcontent := content_akin hm slot
    rcases content_kindred hcontent with ⟨a, a', ha, ha'⟩ | heq
    · rw [ha, ha']
      exact .pure rfl
    · rw [heq]
      split <;> exact .pure rfl
  | temporary hv isLiteral =>
    cases kindred hv with
    | object className fields fields' methods methods' =>
      refine (h.place hv).bind fun {_ content content'} hst hcontent => ?_
      rcases content_kindred hcontent with ⟨a, a', rfl, rfl⟩ | rfl
      · exact .pure rfl
      · split <;> exact .pure rfl
    | _ => exact .pure rfl

theorem className_akin {object object' : Instance} (h : object.recast s.left = object'.recast s.right) :
    object.className = object'.className := by
  have hname := congrArg Instance.className h
  exact hname

/-- The object is the same but for the bodies of its methods. -/
theorem instantiated (h : Coupling R ctx ctx') (id : ObjectId) (member : String) :
    Couples R ctx ctx' s Instance.Akin (instantiated id member)
      (instantiated id member) := by
  apply h.read
  intro m m' hm
  have hobject := congrArg (Memory.instanceOf · id) (congrArg Environment.memory (env_akin hm))
  simp only [Environment.recast, Memory.instanceOf_recast] at hobject
  dsimp only
  rw [className_akin hobject]
  split
  · exact .raise _
  · exact .pure hobject

theorem member_akin {object object' : Instance} (h : object.recast s.left = object'.recast s.right)
    (name : String) : lookupName name object.fields = lookupName name object'.fields ∧
      (lookupName name object.methods).map (Callable.recast s.left) =
        (lookupName name object'.methods).map (Callable.recast s.right) := by
  obtain ⟨className, fields, methods⟩ := object
  obtain ⟨className', fields', methods'⟩ := object'
  obtain ⟨rfl, rfl, hmethods⟩ := Instance.mk.inj h
  refine ⟨rfl, ?_⟩
  rw [← lookupName_map, ← lookupName_map]
  exact congrArg (lookupName name) hmethods

theorem builtinMethod?_akin {m m' : Machine} (hm : m.Akin s m') (type : DataType)
    (name : String) : (builtinMethod? m type name).map (Callable.recast s.left) =
      (builtinMethod? m' type name).map (Callable.recast s.right) := by
  rw [← builtinMethod?_recast, ← builtinMethod?_recast, hm]

theorem memberOf (h : Coupling R ctx ctx') (ho : operand.Akin s operand')
    (name : String) :
    Couples R ctx ctx' s Operand.Akin (memberOf operand name) (memberOf operand' name) := by
  refine (h.objectOf ho).bind fun {_ found found'} hst heq => ?_
  subst heq
  cases found with
  | none =>
    apply h.read
    intro m m' hm
    have hmethod : (builtinMethod? m (typeIn m' operand') name).isSome =
        (builtinMethod? m' (typeIn m' operand') name).isSome := by
      have hsame := congrArg Option.isSome (builtinMethod?_akin hm (typeIn m' operand') name)
      simpa using hsame
    dsimp only
    rw [typeIn_akin hm (ho.later hst), hmethod]
    exact .raise _
  | some id =>
    refine (h.instantiated id name).bind fun {_ object object'} hst hobject => ?_
    obtain ⟨hfield, hmethod⟩ := member_akin hobject name
    rw [hfield, className_akin hobject]
    cases lookupName name object'.fields with
    | some slot => exact .pure rfl
    | none =>
      cases hfound : lookupName name object.methods with
      | none =>
        cases hfound' : lookupName name object'.methods with
        | none => exact .raise _
        | some method' => simp [hfound, hfound'] at hmethod
      | some method =>
        cases hfound' : lookupName name object'.methods with
        | none => simp [hfound, hfound'] at hmethod
        | some method' =>
          rw [hfound, hfound'] at hmethod
          refine .pure ?_
          simp only [Operand.Akin, Operand.ofValue, Operand.recast, Value.recast, Atom.recast,
            Option.some.inj hmethod]

theorem receiver (h : Coupling R ctx ctx') :
    Couples R ctx ctx' s Operand.Akin receiver receiver := by
  apply h.read
  intro m m' hm
  rw [scopes_akin hm]
  split
  · exact .pure rfl
  · exact .raise _

theorem resolved (h : Coupling R ctx ctx') (name : String) :
    Couples R ctx ctx' s Operand.Akin (do return resolve (← machine) name)
      (do return resolve (← machine) name) := by
  refine h.read fun hm => .pure ?_
  rw [Operand.Akin, ← resolve_recast, ← resolve_recast, hm]

theorem elementOf (slots : List Slot) (index : Int32) :
    Couples R ctx ctx' s Operand.Akin (elementOf index slots) (elementOf index slots) := by
  refine Couples.checkingSame rfl fun i => ?_
  split
  · exact .pure rfl
  · exact .raise _

theorem character (index : Int32) (hv : v.Akin s v') :
    Couples R ctx ctx' s Operand.Akin (element.character index v)
      (element.character index v') := by
  have htype := type_akin hv
  cases kindred hv with
  | scalar a hfunction hprocedure hclass =>
    cases a with
    | string text =>
      exact Couples.checkingSame rfl fun i => .pure rfl
    | _ => exact .raise _
  | _ => exact .raise _

theorem element (h : Coupling R ctx ctx') (ho : operand.Akin s operand')
    (index : Int32) :
    Couples R ctx ctx' s Operand.Akin (element operand index) (element operand' index) := by
  have hitem {t : Sight} (slots : List Slot) : Couples R ctx ctx' t Operand.Akin
      (Eval.elementOf index slots) (Eval.elementOf index slots) := elementOf slots index
  cases Operand.kindred ho with
  | reference slot =>
    apply h.read
    intro m m' hm
    have hcontent := content_akin hm slot
    rcases content_kindred hcontent with ⟨a, a', ha, ha'⟩ | heq
    · rw [ha, ha']
      exact (h.valueOf rfl).bind fun _ hv => character index hv
    · rw [heq]
      split
      · exact hitem _
      · exact hitem _
      · exact (h.valueOf rfl).bind fun _ hv => character index hv
  | temporary hv isLiteral =>
    cases kindred hv with
    | array element hitems =>
      refine (h.place hv).bind fun {_ content content'} hst hcontent => ?_
      rcases content_kindred hcontent with ⟨a, a', rfl, rfl⟩ | rfl
      · exact hitem []
      · split <;> exact hitem _
    | list hitems =>
      refine (h.place hv).bind fun {_ content content'} hst hcontent => ?_
      rcases content_kindred hcontent with ⟨a, a', rfl, rfl⟩ | rfl
      · exact hitem []
      · split <;> exact hitem _
    | _ => exact character index hv

theorem indexWith (h : Coupling R ctx ctx') {container container' index index' : Eval Operand}
    (hcontainer : Couples R ctx ctx' s Operand.Akin container container')
    (hindex : ∀ {t}, Couples R ctx ctx' t Operand.Akin index index') :
    Couples R ctx ctx' s Operand.Akin (indexWith container index)
      (indexWith container' index') := by
  refine hcontainer.bind fun _ ho => (h.require ho).bind fun {_ o o'} hst ho => ?_
  rw [show o.anchors = o'.anchors by rw [← Operand.anchors_recast, ho, Operand.anchors_recast]]
  refine ((h.valueBy hindex).holding _).bind fun {t v v'} hst hv => ?_
  have hint : v.asInt = v'.asInt := by
    rw [← @Value.asInt_recast t.left, hv, Value.asInt_recast]
  exact Couples.checkingSame hint fun i => h.element (ho.later hst) i

theorem declareWith (h : Coupling R ctx ctx') (type : DataType) (name : String)
    {value value' : Eval Operand} (hvalue : Couples R ctx ctx' s Operand.Akin value value') :
    Couples R ctx ctx' s Operand.Akin (declareWith type name value)
      (declareWith type name value') :=
  (h.valueBy hvalue).bind fun _ hv => h.declare type name (congrArg some hv)

theorem binary_akin {op : Operator} {w w' : Value} (hv : v.Akin s v') (hw : w.Akin s w') :
    (Operation.binary op v w).map (Value.recast s.left) =
      (Operation.binary op v' w').map (Value.recast s.right) := by
  rw [← Operation.binary_recast, ← Operation.binary_recast, hv, hw]

theorem assignSource (h : Coupling R ctx ctx') (op : Operator)
    (ho : operand.Akin s operand') (hv : v.Akin s v') :
    Couples R ctx ctx' s Operand.Akin (assignSource op operand v)
      (assignSource op operand' v') := by
  unfold Eval.assignSource
  split
  · exact h.assign ho hv
  · refine (h.valueOf ho).bind fun hst hcurrent => ?_
    exact Couples.checking (binary_akin hcurrent (hv.later hst)) fun hw =>
      h.assign (ho.later hst) hw

theorem assignWith (h : Coupling R ctx ctx') (op : Operator)
    {target target' value value' : Eval Operand}
    (htarget : Couples R ctx ctx' s Operand.Akin target target')
    (hvalue : ∀ {t}, Couples R ctx ctx' t Operand.Akin value value') :
    Couples R ctx ctx' s Operand.Akin (assignWith op target value)
      (assignWith op target' value') := by
  have hrest {t : Sight} {o o' : Operand} (ho : o.Akin t o') : Couples R ctx ctx' t Operand.Akin
      (Eval.holding o.anchors (Eval.valueBy value) >>= Eval.assignSource op o)
      (Eval.holding o'.anchors (Eval.valueBy value') >>= Eval.assignSource op o') := by
    rw [show o.anchors = o'.anchors by rw [← Operand.anchors_recast, ho, Operand.anchors_recast]]
    exact ((h.valueBy hvalue).holding _).bind fun hst hv => h.assignSource op (ho.later hst) hv
  refine htarget.bind fun _ ho => ?_
  cases Operand.kindred ho with
  | reference slot => exact hrest ho
  | temporary hv isLiteral => exact (h.require ho).bind fun _ ho => hrest ho

/-! The built-in functions. -/

variable {args args' : List Value}

theorem text_akin (function : String) (index : Nat) (hargs : Value.AllAkin s args args') :
    Arguments.text function args index = Arguments.text function args' index := by
  rw [← @Arguments.text_recast s.left, hargs, Arguments.text_recast]

theorem printing (hargs : Value.AllAkin s args args') {act : Machine → String → Machine}
    (hact : ∀ {m m'}, R s m m' → ∀ text, R s (act m text) (act m' text)) :
    Couples R ctx ctx' s Value.Akin (printing args act) (printing args' act) := by
  have htext : printedText args = printedText args' := by
    rw [← @printedText_recast s.left, hargs, printedText_recast]
  refine Couples.checkingSame htext fun text => ?_
  exact (Couples.step fun m m' hR => hact hR text).bind fun _ _ => .pure rfl

theorem isDefined (h : Coupling R ctx ctx') {operands operands' : List Operand}
    (hoperands : Operand.AllAkin s operands operands') :
    Couples R ctx ctx' s Value.Akin (isDefined operands) (isDefined operands') := by
  cases operands with
  | nil =>
    cases operands' with
    | nil => exact .raise _
    | cons o' rest' => cases hoperands
  | cons o rest =>
    cases operands' with
    | nil => cases hoperands
    | cons o' rest' =>
      cases Operand.kindred (List.cons.inj hoperands).1 with
      | reference slot => exact .pure rfl
      | temporary hv isLiteral =>
        cases kindred hv with
        | scalar a hfunction hprocedure hclass =>
          cases a with
          | void name =>
            unfold Eval.isDefined
            dsimp only
            split
            · exact .raise _
            · exact .pure rfl
          | string name =>
            apply h.read
            intro m m' hm
            rw [← @isKnown_recast s.left, hm, isKnown_recast]
            exact .pure rfl
          | _ => exact .pure rfl
        | _ => exact .pure rfl

theorem fileOperation (h : Coupling R ctx ctx')
    (operation : FileSystem → FileSystem × Option IoError) :
    Couples R ctx ctx' s Value.Akin (fileOperation operation) (fileOperation operation) := by
  apply h.read
  intro m m' hm
  have hfiles : m.files = m'.files := hm.observe Machine.files fun _ _ => rfl
  rw [hfiles]
  refine (Couples.step fun n n' hR => ?_).bind fun _ _ => .pure rfl
  refine h.silent hR ?_ ⟨rfl, rfl, rfl, rfl, rfl, rfl⟩ ⟨rfl, rfl, rfl, rfl, rfl, rfl⟩
  exact congrArg (fun m : Machine => { m with files := (operation m'.files).1 }) (h.same hR)

theorem scriptPath_akin {m m' : Machine} (hm : m.Akin s m') (path : String) :
    m.scriptPath path = m'.scriptPath path := by
  have hfile : m.file = m'.file := hm.observe Machine.file fun _ _ => rfl
  simp only [Machine.scriptPath, hfile]

theorem pathOperation (h : Coupling R ctx ctx') (builtin : Builtin)
    (hargs : Value.AllAkin s args args')
    (operation : FileSystem → String → FileSystem × Option IoError) :
    Couples R ctx ctx' s Value.Akin (pathOperation builtin args operation)
      (pathOperation builtin args' operation) := by
  refine Couples.checkingSame (text_akin _ 0 hargs) fun path => ?_
  apply h.read
  intro m m' hm
  rw [scriptPath_akin hm]
  exact h.fileOperation _

theorem transfer (h : Coupling R ctx ctx') (builtin : Builtin)
    (hargs : Value.AllAkin s args args')
    (operation : FileSystem → String → String → FileSystem × Option IoError) :
    Couples R ctx ctx' s Value.Akin (transfer builtin args operation)
      (transfer builtin args' operation) := by
  refine Couples.checkingSame (text_akin _ 0 hargs) fun source => ?_
  refine Couples.checkingSame (text_akin _ 1 hargs) fun path => ?_
  apply h.read
  intro m m' hm
  rw [scriptPath_akin hm, scriptPath_akin hm]
  exact h.fileOperation _

theorem changeMode (h : Coupling R ctx ctx') (hargs : Value.AllAkin s args args') :
    Couples R ctx ctx' s Value.Akin (changeMode args) (changeMode args') := by
  refine Couples.checkingSame (text_akin _ 0 hargs) fun path => ?_
  have hint : Arguments.int Builtin.changeMode.name args 1 =
      Arguments.int Builtin.changeMode.name args' 1 := by
    rw [← @Arguments.int_recast s.left, hargs, Arguments.int_recast]
  refine Couples.checkingSame hint fun mode => ?_
  apply h.read
  intro m m' hm
  rw [scriptPath_akin hm]
  split
  · exact .pure rfl
  · exact h.fileOperation _

theorem listFiles (h : Coupling R ctx ctx') (hargs : Value.AllAkin s args args') :
    Couples R ctx ctx' s Value.Akin (listFiles args) (listFiles args') := by
  refine Couples.checkingSame (text_akin _ 0 hargs) fun pattern => ?_
  apply h.read
  intro m m' hm
  have hfiles : m.files = m'.files := hm.observe Machine.files fun _ _ => rfl
  have hfile : m.file = m'.file := hm.observe Machine.file fun _ _ => rfl
  rw [hfiles, hfile]
  refine .pure ?_
  simp [Value.Akin, Value.recast, Atom.recast]

theorem modificationTime (h : Coupling R ctx ctx')
    (hargs : Value.AllAkin s args args') :
    Couples R ctx ctx' s Value.Akin (modificationTime args) (modificationTime args') := by
  refine Couples.checkingSame (text_akin _ 0 hargs) fun path => ?_
  apply h.read
  intro m m' hm
  have hfiles : m.files = m'.files := hm.observe Machine.files fun _ _ => rfl
  rw [scriptPath_akin hm, hfiles]
  split
  · exact .raise _
  · split
    · exact .raise _
    · refine Couples.checkingSame rfl fun seconds => ?_
      exact .pure rfl

theorem runBuiltin (h : Coupling R ctx ctx') (builtin : Builtin)
    {operands operands' : List Operand} (hoperands : Operand.AllAkin s operands operands') :
    Couples R ctx ctx' s Value.Akin (runBuiltin builtin operands)
      (runBuiltin builtin operands') := by
  apply h.read
  intro m m' hm
  have hargs : Value.AllAkin s (operands.map (valueIn m)) (operands'.map (valueIn m')) := by
    have hvalues : (operands.map (Operand.recast s.left)).map (valueIn (m.recast s.left)) =
        (operands'.map (Operand.recast s.right)).map (valueIn (m'.recast s.right)) := by
      rw [hoperands, hm]
    simpa [Value.AllAkin, List.map_map, Function.comp_def] using hvalues
  generalize operands.map (valueIn m) = args at hargs
  generalize operands'.map (valueIn m') = args' at hargs
  have hvalue : (Arguments.value args 0).map (Value.recast s.left) =
      (Arguments.value args' 0).map (Value.recast s.right) := by
    rw [← Arguments.value_recast, ← Arguments.value_recast, hargs]
  have hcast (target : DataType) : Couples R ctx ctx' s Value.Akin
      (Eval.ofExcept (do (← Arguments.value args 0).convert target))
      (Eval.ofExcept (do (← Arguments.value args' 0).convert target)) := by
    apply Couples.check
    cases hfirst : Arguments.value args 0 with
    | error e =>
      cases hfirst' : Arguments.value args' 0 with
      | error e' =>
        rw [hfirst, hfirst'] at hvalue
        exact hvalue
      | ok v' => simp [hfirst, hfirst', Except.map] at hvalue
    | ok v =>
      cases hfirst' : Arguments.value args' 0 with
      | error e' => simp [hfirst, hfirst', Except.map] at hvalue
      | ok v' =>
        rw [hfirst, hfirst'] at hvalue
        change (v.convert target).map _ = (v'.convert target).map _
        rw [← Value.convert_recast, ← Value.convert_recast, Except.ok.inj hvalue]
  cases builtin with
  | print => exact printing hargs h.print
  | printLine =>
    have hempty : args.isEmpty = args'.isEmpty := by
      have hsame := congrArg List.isEmpty hargs
      simpa using hsame
    dsimp only
    rw [hempty]
    split
    · exact (Couples.step fun m m' hR => h.print hR _).bind fun _ _ => .pure rfl
    · exact printing hargs fun hR text => h.print hR _
  | warning => exact printing hargs h.warn
  | error => exact printing hargs h.reportMessage
  | debug => exact printing hargs h.debug
  | typeOf =>
    refine Couples.checking hvalue fun {v v'} hv => .pure ?_
    rw [type_akin hv]
    rfl
  | castString =>
    refine Couples.checking hvalue fun {v v'} hv => .pure ?_
    have htext : v.text = v'.text := by
      rw [← @Value.text_recast s.left, hv, Value.text_recast]
    rw [htext]
    rfl
  | castBool | castInt | castFloat => exact hcast _
  | includeFile =>
    refine Couples.checkingSame (text_akin _ 0 hargs) fun path => ?_
    refine (h.includeFile path).bind fun {_ ok ok'} hst heq => ?_
    subst heq
    exact .pure rfl
  | listFiles => exact h.listFiles hargs
  | defined => exact h.isDefined hoperands
  | copyFile | moveFile => exact h.transfer _ hargs _
  | deleteFile | makeDir | makePath | makeFile => exact h.pathOperation _ hargs _
  | changeMode => exact h.changeMode hargs
  | modificationTime => exact h.modificationTime hargs

theorem callBuiltin (h : Coupling R ctx ctx') (builtin : Builtin)
    {operands operands' : List Operand} (hoperands : Operand.AllAkin s operands operands') :
    Couples R ctx ctx' s Operand.Akin (callBuiltin builtin operands)
      (callBuiltin builtin operands') := by
  have hlength : operands.length = operands'.length := by
    have hsame := congrArg List.length hoperands
    simpa using hsame
  unfold Eval.callBuiltin
  rw [hlength]
  split
  · refine (h.runBuiltin builtin hoperands).bind fun {_ v v'} hst hv => .pure ?_
    exact congrArg (Operand.temporary · false) hv
  · exact .raise _

end Coupling

end BuildScript.Eval
