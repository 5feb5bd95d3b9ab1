import Mathlib
import BuildScript.Proofs.Typing.Running

/-!
The states of running scripts, with what an evaluation has in hand between two of its steps. In each
of them arrays are homogeneous, and places hold what they were declared to hold, save that a
`function` keeps the type of whatever it was given first.
-/

namespace BuildScript

open Eval (Secures valueIn voidIn? entered bindCall)
open Relation (ReflTransGen)

/-- A slot that a declaration or a parameter made, with its type and the classes there were. -/
structure Declaration where
  slot : Slot
  type : DataType
  classes : ClassTable

/-- A state between two steps: the machine, the operands in hand, and what was declared so far. -/
structure Moment where
  machine : Machine
  operands : List Operand
  declared : List Declaration

namespace Moment

/-- What an evaluation does with the operands in hand. -/
inductive Performs (m : Machine) (operands : List Operand) : Eval Operand → Prop
  | evaluation (expr : Expr) : Performs m operands (Eval.evalExpr expr)
  | copy {operand : Operand} (h : operand ∈ operands) :
    Performs m operands (return .ofValue (valueIn m operand))
  | conversion {operand : Operand} (h : operand ∈ operands) (type : DataType) :
    Performs m operands do return .ofValue (← Eval.ofExcept ((valueIn m operand).convert type))
  | unary {operand : Operand} (h : operand ∈ operands) (op : Operator) :
    Performs m operands do
      return .ofValue (← Eval.ofExcept (Operation.unary op (valueIn m operand)))
  | binary {left right : Operand} (hleft : left ∈ operands) (hright : right ∈ operands)
    (hvalue : voidIn? m right = none) (op : Operator) :
    Performs m operands do
      return .ofValue (← Eval.ofExcept (Operation.binary op (valueIn m left) (valueIn m right)))
  | literal {items : List Operand}
    (hitems : ∀ item ∈ items, item ∈ operands ∧ voidIn? m item = none) :
    Performs m operands do
      return .ofValue (← Eval.ofExcept (Eval.arrayOf (items.map (valueIn m))))
  | element {container : Operand} (h : container ∈ operands) (index : Int32) :
    Performs m operands (Eval.element container index)
  | member {target : Operand} (h : target ∈ operands) (name : String) :
    Performs m operands (Eval.memberOf target name)
  | assignment {target source : Operand} (htarget : target ∈ operands) (hsource : source ∈ operands)
    (hvalue : voidIn? m source = none) (op : Operator) :
    Performs m operands (Eval.assignSource op target (valueIn m source))
  | call {function : Operand} {args : List Operand} (hfunction : function ∈ operands)
    (hargs : args ⊆ operands) : Performs m operands (Eval.callValue (valueIn m function) args)
  | result {operand : Operand} (h : operand ∈ operands) (function : UserFunction) :
    Performs m operands do
      return .ofValue (← Eval.ofExcept (Eval.checkReturn function (some (valueIn m operand))))

/-- The parameters of a call with the slots they are bound to. -/
def parameters (function : UserFunction) (m : Machine) : List Declaration :=
  function.params.filterMap fun param =>
    (m.env.scopes.lookupCurrent param.name).map fun slot => ⟨slot, param.type, m.classes⟩

/-- One step of running scripts, without an embedding program. Bodies nest no deeper than the
budget; a step may go through all of an expression, an item or a body, or stop within it. -/
inductive Step : Moment → Moment → Prop
  /-- Scopes, the place in the script, what was reported: nothing in storage. -/
  | aside {m m' operands declared} (h : m.Aside m') :
    Step ⟨m, operands, declared⟩ ⟨m', operands, declared⟩
  | performed {m m' operands declared x operand budget kept} (h : Performs m operands x)
    (hrun : x (Session.context .none budget kept) m = (.ok operand, m')) :
    Step ⟨m, operands, declared⟩ ⟨m', operand :: operands, declared⟩
  | failed {m m' operands declared x fault budget kept} (h : Performs m operands x)
    (hrun : x (Session.context .none budget kept) m = (.error fault, m')) :
    Step ⟨m, operands, declared⟩ ⟨m', operands, declared⟩
  /-- A variable was declared, from a value in hand or from the start of its type. -/
  | declared {m m' operands declared slot budget kept} (type : DataType) (name : String)
    {initial : Option Operand}
    (hinitial : ∀ operand, initial = some operand → operand ∈ operands ∧ voidIn? m operand = none)
    (hrun : Eval.declare type name (initial.map (valueIn m)) (Session.context .none budget kept) m =
      (.ok (.reference slot), m')) :
    Step ⟨m, operands, declared⟩
      ⟨m', .reference slot :: operands, ⟨slot, type, m.classes⟩ :: declared⟩
  /-- A call was entered: its receiver and its parameters are bound, and its body comes next. -/
  | called {m m' operands declared function receiver args bound budget kept}
    (hreceiver : ∀ id, receiver = some id → Eval.Exists m id) (hargs : args ⊆ operands)
    (hcount : args.length = function.params.length)
    (hready : Eval.bindAll function.name 1 (function.params.zip args)
      (Session.context .none budget kept) m = (.ok bound, m))
    (hbind : bindCall receiver bound (Session.context .none budget kept) (entered function.file m) =
      (.ok (), m')) :
    Step ⟨m, operands, declared⟩ ⟨m', operands, parameters function m' ++ declared⟩
  | item {m operands declared} (base : Nat) (inFunction : Bool) (item : Item) (budget : Nat)
    (kept : List Anchor) :
    Step ⟨m, operands, declared⟩
      ⟨(Run.runItem base inFunction item (Session.context .none budget kept) m).2, operands,
        declared⟩
  | lines {m operands declared} (lines : List Text.SourceLine) (inFunction : Bool) (budget : Nat)
    (kept : List Anchor) :
    Step ⟨m, operands, declared⟩
      ⟨(Run.runLines lines inFunction (Session.context .none budget kept) m).2, operands, declared⟩

/-- The second moment comes some steps after the first. -/
def Later : Moment → Moment → Prop := ReflTransGen Step

/-- A moment of running scripts. -/
def Reached (x : Moment) : Prop :=
  ∃ options files, Later ⟨.initial options files, [], []⟩ x

/-- The type of what a slot holds. -/
def typeAt (x : Moment) (slot : Slot) : DataType := x.machine.env.memory.typeAt slot

/-- Everything in a moment is what it is said to be. -/
structure Sound (x : Moment) : Prop where
  machine : x.machine.Typed
  operands : ∀ operand ∈ x.operands, operand.Typed x.machine
  declared : ∀ d ∈ x.declared, d.slot.index < x.machine.env.memory.cells.size ∧
    (d.type ≠ .void → d.classes.Admits d.type (x.typeAt d.slot))

variable {x y z : Moment}

/-- What was declared is declared still. -/
structure Follows (x y : Moment) : Prop where
  settles : x.machine.Settles y.machine
  declared : x.declared ⊆ y.declared

/-- What was declared holds while slots with a value keep its type. -/
theorem Sound.declared_kept (h : x.Sound) {m : Machine} (hsettles : x.machine.Settles m)
    (d : Declaration) (hd : d ∈ x.declared) : d.slot.index < m.env.memory.cells.size ∧
      (d.type ≠ .void → d.classes.Admits d.type (m.env.memory.typeAt d.slot)) := by
  obtain ⟨hbound, hadmits⟩ := h.declared d hd
  refine ⟨Nat.lt_of_lt_of_le hbound hsettles.memory.cells, fun htype => ?_⟩
  exact (hadmits htype).kept fun hvalue => hsettles.memory.typeAt d.slot hbound hvalue

theorem Sound.later (h : x.Sound) {m : Machine} (hm : m.Typed) (hsettles : x.machine.Settles m) :
    Sound ⟨m, x.operands, x.declared⟩ ∧ x.Follows ⟨m, x.operands, x.declared⟩ :=
  ⟨⟨hm, fun operand hmem => (h.operands operand hmem).mono hsettles, h.declared_kept hsettles⟩,
    hsettles, List.Subset.refl _⟩

/-- What is done with the operands in hand is safe and gives an operand that is what it is said to
be. -/
theorem Sound.performs (h : x.Sound) {action : Eval Operand}
    (hperforms : Performs x.machine x.operands action)
    {ctx : Context} (hctx : ctx.Secures) :
    Secures ctx x.machine action fun m operand => operand.Typed m := by
  have hvalue {operand : Operand} (hmem : operand ∈ x.operands) :
      Eval.IsValue x.machine (valueIn x.machine operand) :=
    Eval.valueIn_typed h.machine (h.operands operand hmem)
  have hsome {operand : Operand} (hmem : operand ∈ x.operands)
      (hnone : voidIn? x.machine operand = none) :
      Eval.HasValue x.machine (valueIn x.machine operand) :=
    ⟨hvalue hmem, (Eval.type_valueIn _ _).symm ▸ Eval.type_of_voidIn?_none hnone⟩
  cases hperforms with
  | evaluation expr => exact Eval.evalExpr_gives hctx expr x.machine
  | copy hmem => exact .pure (hvalue hmem)
  | conversion hmem type =>
    exact .check fun value hconvert => .pure ((hvalue hmem).convert hconvert).1
  | unary hmem op => exact .check fun value hresult => .pure (Operation.unary_plain hresult).typed
  | binary hleft hright hnone op =>
    refine .check fun value hresult => .pure ?_
    exact Operation.binary_typed (hvalue hleft) (hvalue hright) (hsome hright hnone).2 hresult
  | literal hitems =>
    refine .check fun value hresult => .pure (Eval.arrayOf_typed ?_ hresult)
    intro value hmem
    obtain ⟨item, hitem, rfl⟩ := List.mem_map.mp hmem
    exact hsome (hitems item hitem).1 (hitems item hitem).2
  | element hmem index => exact Eval.element_secures (h.operands _ hmem) index
  | member hmem name => exact Eval.memberOf_secures (h.operands _ hmem) name
  | assignment htarget hsource hnone op =>
    exact (Eval.assignSource_secures op (h.operands _ htarget) (hsome hsource hnone)).weaken
      fun _ _ _ _ hresult => hresult.2
  | call hfunction hargs =>
    exact Eval.callValue_secures hctx (hvalue hfunction) fun arg hmem => h.operands arg (hargs hmem)
  | result hmem function =>
    refine .check fun value hresult => .pure ?_
    rename_i operand
    have hflow : (Flow.giveBack (some (valueIn x.machine operand))).Typed x.machine := by
      rintro _ ⟨⟩
      exact hvalue hmem
    exact Eval.checkReturn_typed hflow hresult

/-- Parameters are bound to slots of exactly their types. -/
theorem parameters_sound {function : UserFunction} {m : Machine}
    (h : ∀ param ∈ function.params, Eval.Received m param.name param.type) (d : Declaration)
    (hd : d ∈ parameters function m) : d.slot.index < m.env.memory.cells.size ∧
      (d.type ≠ .void → d.classes.Admits d.type (m.env.memory.typeAt d.slot)) := by
  obtain ⟨param, hparam, hfound⟩ := List.mem_filterMap.mp hd
  obtain ⟨slot, hslot, hbound, htype⟩ := h param hparam
  rw [hslot] at hfound
  cases hfound
  refine ⟨hbound, fun hvalue => ?_⟩
  dsimp only at hvalue ⊢
  rw [htype hvalue]
  exact .exact hvalue

/-- A step keeps everything what it is said to be. -/
theorem Step.sound (hstep : Step x y) (hx : x.Sound) : y.Sound ∧ x.Follows y := by
  cases hstep with
  | aside h => exact hx.later (h.typed hx.machine) h.settles
  | performed hperforms hrun =>
    have hsafe := (hx.performs hperforms (Session.context_secures _ _)).of_run hx.machine hrun
    obtain ⟨hsound, hfollows⟩ := hx.later hsafe.typed hsafe.settles
    refine ⟨⟨hsound.machine, ?_, hsound.declared⟩, hfollows.settles, hfollows.declared⟩
    exact List.forall_mem_cons.mpr ⟨hsafe.result _ rfl, hsound.operands⟩
  | failed hperforms hrun =>
    have hsafe := (hx.performs hperforms (Session.context_secures _ _)).of_run hx.machine hrun
    exact hx.later hsafe.typed hsafe.settles
  | @declared m m' operands declared slot budget kept type name initial hinitial hrun =>
    have hvalues (value : Value) (heq : initial.map (valueIn m) = some value) :
        Eval.HasValue m value := by
      obtain ⟨operand, rfl, rfl⟩ := Option.map_eq_some_iff.mp heq
      obtain ⟨hmem, hnone⟩ := hinitial operand rfl
      exact ⟨Eval.valueIn_typed hx.machine (hx.operands operand hmem),
        (Eval.type_valueIn _ _).symm ▸ Eval.type_of_voidIn?_none hnone⟩
    have hsafe := (Eval.declare_secures type name hvalues).of_run hx.machine hrun
    obtain ⟨hsound, hfollows⟩ := hx.later hsafe.typed hsafe.settles
    obtain ⟨_, ⟨⟩, hbound, hadmits⟩ := hsafe.result _ rfl
    refine ⟨⟨hsound.machine, List.forall_mem_cons.mpr ⟨hbound, hsound.operands⟩,
      List.forall_mem_cons.mpr ⟨⟨hbound, fun _ => hadmits⟩, hsound.declared⟩⟩, hfollows.settles, ?_⟩
    exact List.subset_cons_self _ _
  | @called m m' operands declared function receiver args bound budget kept hreceiver hargs hcount
      hready hbind =>
    have hready' := (Eval.bindAll_secures function.name 1 fun pair hpair =>
      hx.operands pair.2 (hargs (List.of_mem_zip hpair).2)).of_run hx.machine hready
    obtain ⟨-, hsuits⟩ := hready'.result _ rfl
    rw [List.map_fst_zip (Nat.le_of_eq hcount.symm)] at hsuits
    have hentered := Eval.entered_aside function.file m
    have hexists (id : ObjectId) (hid : receiver = some id) :
        Eval.Exists (entered function.file m) id := hreceiver id hid
    have hsafe := (Eval.bindCall_secures hexists (hsuits.mono hentered.settles)).of_run
      (hentered.typed hx.machine) hbind
    obtain ⟨hsound, hfollows⟩ := hx.later hsafe.typed (hentered.settles.trans hsafe.settles)
    refine ⟨⟨hsound.machine, hsound.operands, ?_⟩, hfollows.settles, ?_⟩
    · exact List.forall_mem_append.mpr ⟨parameters_sound (hsafe.result () rfl), hsound.declared⟩
    · exact List.subset_append_right _ _
  | item base inFunction item budget kept =>
    have hsafe := (Run.runItem_secures (Session.context_secures budget kept) base inFunction
      item).of_run hx.machine (Prod.eta _).symm
    exact hx.later hsafe.typed hsafe.settles
  | lines lines inFunction budget kept =>
    have hsafe := Eval.Secures.of_run
      (Run.runLines_secures (Session.context_secures budget kept) lines inFunction) hx.machine
      (Prod.eta _).symm
    exact hx.later hsafe.typed hsafe.settles

/-- So does any number of steps. -/
theorem Later.sound (h : x.Later y) (hx : x.Sound) : y.Sound ∧ x.Follows y := by
  induction h with
  | refl => exact ⟨hx, .refl _, List.Subset.refl _⟩
  | tail _ hstep ih =>
    obtain ⟨hbetween, hfollows⟩ := ih
    obtain ⟨hafter, hnext⟩ := hstep.sound hbetween
    exact ⟨hafter, hfollows.settles.trans hnext.settles,
      List.Subset.trans hfollows.declared hnext.declared⟩

theorem initial_sound (options : Options) (files : FileSystem) :
    Sound ⟨.initial options files, [], []⟩ :=
  ⟨⟨.empty _, List.forall_mem_nil _⟩, List.forall_mem_nil _, List.forall_mem_nil _⟩

/-- In every moment of running scripts everything is what it is said to be. -/
theorem Reached.sound (h : x.Reached) : x.Sound := by
  obtain ⟨options, files, hlater⟩ := h
  exact (hlater.sound (initial_sound options files)).1

/-- Running a text as a file leads to a later moment. -/
theorem later_runSource (x : Moment) (name text : String) :
    x.Later ⟨(Session.runSource .none name text x.machine).2, x.operands, x.declared⟩ := by
  obtain ⟨m, operands, declared⟩ := x
  obtain ⟨budget, hbudget⟩ : ∃ budget, Session.budget m = budget + 1 := by
    refine ⟨Session.budget m - 1, ?_⟩
    unfold Session.budget
    omega
  have hopened : m.Aside (Eval.opened name m) := .of_env rfl rfl
  let ran := Run.runLines (Text.SourceLine.split text) false (Session.context .none budget [])
    (Eval.opened name m)
  have hclosed : ran.2.Aside (Eval.closed ran) := by
    unfold Eval.closed
    split <;> exact .of_env rfl rfl
  have hrun : (Session.runSource .none name text m).2 = Eval.closed ran := by
    unfold Session.runSource Session.run
    rw [hbudget, Eval.runSource_apply]
    rfl
  rw [hrun]
  exact .tail (.tail (.single (.aside hopened)) (.lines _ false budget [])) (.aside hclosed)

/-- In every moment of running scripts arrays are homogeneous, at every nesting: those in storage,
slot by slot and as values, those of objects and in hand, and those that an expression gives. -/
theorem Reached.arrays_homogeneous (h : x.Reached) :
    (∀ slot element items, x.machine.env.memory.content slot = .array element items →
      (∀ item ∈ items, x.typeAt item = element) ∧ (element = .void → items = [])) ∧
    (∀ slot, (x.machine.env.load slot).Homogeneous) ∧
    (∀ id < x.machine.env.memory.objects.size,
      (x.machine.env.memory.loadInstance id).Homogeneous) ∧
    (∀ operand ∈ x.operands, (valueIn x.machine operand).Homogeneous) ∧
    ∀ expr budget kept operand m,
      Eval.evalExpr expr (Session.context .none budget kept) x.machine = (.ok operand, m) →
        (valueIn m operand).Homogeneous := by
  have hsound := h.sound
  have hmemory := hsound.machine.memory
  refine ⟨?_, ?_, ?_, ?_, ?_⟩
  · intro slot element items hcontent
    have hslot : slot.index < x.machine.env.memory.cells.size := by
      by_contra houtside
      rw [Memory.content_outside (Nat.le_of_not_lt houtside)] at hcontent
      cases hcontent
    have hholds := hmemory.holds slot hslot
    rw [hcontent] at hholds
    exact ⟨fun item hitem => (hholds.1 item hitem).2, hholds.2⟩
  · intro slot
    by_cases hslot : slot.index < x.machine.env.memory.cells.size
    · exact (hmemory.load hslot).homogeneous
    · unfold Environment.load Memory.load
      rw [Memory.loadWithin_succ, Memory.content_outside (Nat.le_of_not_lt hslot)]
      exact .atom _
  · intro id hid
    exact (hmemory.loadInstance hid fun field hfield =>
      hmemory.load (hmemory.fields id hid field hfield)).homogeneous
  · intro operand hmem
    exact (Eval.valueIn_typed hsound.machine (hsound.operands operand hmem)).homogeneous
  · intro expr budget kept operand m hrun
    have hsafe := (Eval.evalExpr_gives (Session.context_secures _ _) expr x.machine).of_run
      hsound.machine hrun
    exact (Eval.valueIn_typed hsafe.typed (hsafe.result operand rfl)).homogeneous

/-- After a script that fills arrays from a literal, by elements that convert and by copies. -/
def filled : Moment :=
  ⟨(Session.runSource .none "arrays" "int[] a = [1, 2]\na += true\na[0] = false\nint[][] b\nb += a"
    (.initial .standard (.shelf ⟨[]⟩))).2, [], []⟩

/-- Its nested array is homogeneous. -/
theorem filled_homogeneous :
    lookupName "b" filled.machine.env.scopes.global = some ⟨6⟩ ∧
      filled.machine.env.load ⟨6⟩ = .array (.array .int) [.array .int [.int 0, .int 2, .int 1]] ∧
      (filled.machine.env.load ⟨6⟩).Homogeneous := by
  have hreached : filled.Reached := ⟨.standard, .shelf ⟨[]⟩, later_runSource _ _ _⟩
  obtain ⟨-, hload, -⟩ := hreached.arrays_homogeneous
  exact ⟨by cbv, by cbv, hload ⟨6⟩⟩

end Moment

/-- What is right in a place declared with the first type: exactly that type, nothing in a
`function` that was never assigned, and a placeholder where the class was unknown. -/
inductive ClassTable.Allows (classes : ClassTable) : DataType → DataType → Prop
  | exact (type : DataType) : Allows classes type type
  | unassigned : Allows classes .function .void
  | placeholder {className : String} (h : classes.find? className = none) :
    Allows classes (.object className) (.object "")

namespace Moment

variable {x y : Moment}

/-- A slot declared with a type holds what is right for it in the later moment, if it holds nothing
there or held a function already in the earlier one, should it be a `function`. -/
def Keeps (x y : Moment) (classes : ClassTable) (type : DataType) (slot : Slot) : Prop :=
  (type = .function → x.typeAt slot = .function ∨ y.typeAt slot = .void) →
    classes.Allows type (y.typeAt slot)

theorem keeps_of_admits {classes : ClassTable} {type : DataType} {slot : Slot}
    (hadmits : classes.Admits type (y.typeAt slot))
    (hkept : x.typeAt slot ≠ .void → y.typeAt slot = x.typeAt slot) :
    x.Keeps y classes type slot := by
  intro hfunction
  generalize hfound : y.typeAt slot = found at hadmits
  cases hadmits with
  | exact _ => exact .exact type
  | placeholder hunknown => exact .placeholder hunknown
  | function _ =>
    rcases hfunction rfl with hbefore | hvoid
    · rw [← hfound, hkept (by rw [hbefore]; decide), hbefore]
      exact .exact _
    · rw [← hfound, hvoid]
      exact .unassigned

/-- Variables, parameters and the fields of objects keep the types they were declared with through
everything that running scripts does. A `function` keeps the type of what it is given first,
whatever that is. -/
theorem Later.declared_types_kept (hx : x.Reached) (hlater : x.Later y) :
    (∀ d ∈ x.declared, d.type ≠ .void → x.Keeps y d.classes d.type d.slot) ∧
    (∀ id < x.machine.env.memory.objects.size,
      let object := x.machine.env.memory.instanceOf id
      y.machine.env.memory.instanceOf id = object ∧
        (object.className = "" ∧ object.fields = [] ∨
          ∃ (earlier : ClassTable) (template : ClassTemplate) (declared : List Field),
            earlier <+: x.machine.classes ∧ earlier.find? object.className = some template ∧
              declared.Sublist template.fields ∧ List.Forall₂
                (fun field found => found.1 = field.name ∧ x.Keeps y earlier field.type found.2)
                declared object.fields)) ∧
    ∀ d ∈ x.declared, x.typeAt d.slot = .void → ∀ operand ∈ x.operands, ∀ ctx, ∃ m,
      Eval.assign (.reference d.slot) (valueIn x.machine operand) ctx x.machine =
        (.ok (.reference d.slot), m) ∧
        m.env.memory.typeAt d.slot = Eval.typeIn x.machine operand := by
  have hsound := hx.sound
  obtain ⟨hafter, hfollows⟩ := hlater.sound hsound
  have hkept (slot : Slot) (hvalue : x.typeAt slot ≠ .void) : y.typeAt slot = x.typeAt slot :=
    hfollows.settles.memory.typeAt slot (Memory.bound_of_typeAt hvalue) hvalue
  refine ⟨fun d hd htype => ?_, fun id hid => ?_, fun d hd hvoid operand hmem ctx => ?_⟩
  · have hadmits := (hafter.declared d (hfollows.declared hd)).2 htype
    exact keeps_of_admits hadmits (hkept d.slot)
  · refine ⟨hfollows.settles.memory.instanceOf id hid, ?_⟩
    have hmemory := hsound.machine.memory
    have hdescribed := hfollows.settles.memory.describes (hmemory.fields id hid)
      (hmemory.described id hid)
    generalize x.machine.env.memory.instanceOf id = object at hdescribed
    obtain ⟨className, fields, methods⟩ := object
    unfold Memory.fieldTypes at hdescribed
    generalize htypes : fields.map _ = types at hdescribed
    cases hdescribed with
    | placeholder => exact .inl ⟨rfl, List.map_eq_nil_iff.mp htypes⟩
    | made hearlier hfind hdeclared hfields =>
      subst htypes
      rw [List.forall₂_map_right_iff] at hfields
      refine .inr ⟨_, _, _, hearlier, hfind, hdeclared, hfields.imp ?_⟩
      exact fun field found hfound => ⟨hfound.1, keeps_of_admits hfound.2 (hkept found.2)⟩
  · have htarget : Eval.typeIn x.machine (.reference d.slot) = .void := hvoid
    refine ⟨{ x.machine with env := x.machine.env.write d.slot (valueIn x.machine operand) },
      ?_, ?_⟩
    · simp only [Eval.assign, Eval.andThen_apply, Eval.machine_apply, Eval.liftM_eq,
        Eval.ofExcept_apply, Eval.stored, htarget]
      rfl
    · exact (Memory.typeAt_write_self (hsound.declared d hd).1 _).trans (Eval.type_valueIn _ _)

/-- After `T name`, for a variable. -/
def afterDeclaring (type : DataType) (name : String) : Moment :=
  ⟨(Eval.declare type name none (Session.context .none 1 [])
    (.initial .standard (.shelf ⟨[]⟩))).2, [.reference ⟨0⟩], [⟨⟨0⟩, type, .builtin⟩]⟩

/-- After the assignment of a literal to the variable. -/
def afterAssigning (type : DataType) (name : String) (value : Literal) : Moment :=
  ⟨(Eval.evalExpr (.binary .assign (.identifier name) (.literal value)) (Session.context .none 1 [])
    (afterDeclaring type name).machine).2, [.reference ⟨0⟩, .reference ⟨0⟩],
    [⟨⟨0⟩, type, .builtin⟩]⟩

theorem afterDeclaring_step {type : DataType} {name : String}
    (h : (Eval.declare type name none (Session.context .none 1 [])
      (.initial .standard (.shelf ⟨[]⟩))).1 = .ok (.reference ⟨0⟩)) :
    Step ⟨.initial .standard (.shelf ⟨[]⟩), [], []⟩ (afterDeclaring type name) :=
  @Step.declared _ _ [] [] ⟨0⟩ 1 [] type name none (fun _ heq => by cases heq) (Prod.ext h rfl)

theorem afterAssigning_step {type : DataType} {name : String} {value : Literal}
    (h : (Eval.evalExpr (.binary .assign (.identifier name) (.literal value))
      (Session.context .none 1 []) (afterDeclaring type name).machine).1 = .ok (.reference ⟨0⟩)) :
    Step (afterDeclaring type name) (afterAssigning type name value) :=
  .performed (.evaluation (.binary .assign (.identifier name) (.literal value))) (Prod.ext h rfl)

/-- After `int n` and `n = true` the variable still holds an integer. -/
theorem converted_number_kept :
    (afterDeclaring .int "n").Reached ∧
      (afterDeclaring .int "n").Later (afterAssigning .int "n" (.bool true)) ∧
      (afterAssigning .int "n" (.bool true)).typeAt ⟨0⟩ = .int ∧
      (afterAssigning .int "n" (.bool true)).machine.env.load ⟨0⟩ = .int 1 := by
  have hreached : (afterDeclaring .int "n").Reached :=
    ⟨.standard, .shelf ⟨[]⟩, .single (afterDeclaring_step rfl)⟩
  have hlater : (afterDeclaring .int "n").Later (afterAssigning .int "n" (.bool true)) :=
    .single (afterAssigning_step rfl)
  obtain ⟨hdeclared, -, -⟩ := hlater.declared_types_kept hreached
  have hkeeps := hdeclared ⟨⟨0⟩, .int, .builtin⟩ List.mem_cons_self (by decide)
  have hallows := hkeeps fun heq => by cases heq
  refine ⟨hreached, hlater, ?_, rfl⟩
  dsimp only at hallows
  generalize (afterAssigning .int "n" (.bool true)).typeAt ⟨0⟩ = found at hallows
  cases hallows
  rfl

/-- After `function f` and `f = 5` the variable holds an integer. -/
theorem function_takes_number :
    ¬∀ x : Moment, x.Reached → ∀ d ∈ x.declared, d.type ≠ .void →
      d.classes.Allows d.type (x.typeAt d.slot) := by
  intro hclaim
  have hreached : (afterAssigning .function "f" (.int 5)).Reached :=
    ⟨.standard, .shelf ⟨[]⟩, .tail (.single (afterDeclaring_step rfl)) (afterAssigning_step rfl)⟩
  have hallows : ClassTable.builtin.Allows .function .int :=
    hclaim _ hreached ⟨⟨0⟩, .function, .builtin⟩ List.mem_cons_self (by decide)
  cases hallows

end Moment

end BuildScript
