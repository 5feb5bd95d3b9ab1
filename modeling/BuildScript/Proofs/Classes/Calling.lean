import BuildScript.Proofs.Evaluation.Names
import BuildScript.Proofs.Isolation.Calls
import BuildScript.Proofs.Isolation.Holding
import BuildScript.Proofs.Run.Sharing
import Mathlib

/-!
Calling a member of an object, and calling it after it was taken. `o.n(args)` looks for a method first
and holds on to the object and its variable during the call, `function g = o.n` looks for a field first
and `g(args)` holds on to nothing. The two ways meet in one call, as long as the name is not that of a
field and of a method, and as long as a function that lies in a field leaves the object where it is.
-/

namespace BuildScript

open Eval (evalExpr evalArguments valueIn callValue holding resolve)
open Machine (Stores)

/-- What the member of an object calls: a method, with the object as its receiver, or the function that
lies in a field. -/
inductive Machine.Callee (m : Machine) (id : ObjectId) (name : String) :
    Callable → Option ObjectId → Prop
  | method {callable : Callable}
    (hmethod : lookupName name (m.env.memory.instanceOf id).methods = some callable)
    (hfield : lookupName name (m.env.memory.instanceOf id).fields = none) :
    Callee m id name callable (some id)
  | field {slot : Slot} {callable : Callable} {receiver : Option ObjectId}
    (hfield : lookupName name (m.env.memory.instanceOf id).fields = some slot)
    (hmethod : lookupName name (m.env.memory.instanceOf id).methods = none)
    (hvalue : m.env.load slot = .atom (.function callable receiver)) :
    Callee m id name callable receiver

/-- What converts to a function is one. -/
theorem Value.convert_function {value result : Value} (h : value.convert .function = .ok result) :
    result = value ∧ ∃ callable receiver, value = .atom (.function callable receiver) := by
  unfold convert at h
  split at h
  · rename_i htype
    cases value with
    | atom a =>
      cases a with
      | function callable receiver =>
        cases h
        exact ⟨rfl, callable, receiver, rfl⟩
      | _ => cases htype
    | _ => cases htype
  · cases h

/-- A slot that loads an atom holds it. -/
theorem Memory.content_of_load {memory : Memory} {slot : Slot} {a : Atom}
    (h : memory.load slot = .atom a) : memory.content slot = .atom a := by
  unfold load at h
  rw [loadWithin_succ] at h
  cases hcontent : memory.content slot with
  | atom found =>
    rw [hcontent] at h
    cases h
    rfl
  | _ =>
    rw [hcontent] at h
    cases h

/-- What an object calls stays the same while values are only stored. -/
theorem Machine.Callee.grown {start m : Machine} {slot : Slot} {id : ObjectId} {name : String}
    {callable : Callable} {receiver : Option ObjectId} (h : start.Callee id name callable receiver)
    (hgrows : start.env.memory.Grows m.env.memory) (hsolid : start.env.memory.Solid slot)
    (hcontent : start.env.memory.content slot = .object id) : m.Callee id name callable receiver := by
  have hinstance := hgrows.instanceOf id (hsolid.object hcontent)
  cases h with
  | method hmethod hfield => exact .method (hinstance ▸ hmethod) (hinstance ▸ hfield)
  | @field field _ _ hfield hmethod hvalue =>
    refine .field (hinstance ▸ hfield) (hinstance ▸ hmethod) ?_
    have hpart : start.env.memory.Part slot field := by
      unfold Memory.Part
      rw [hcontent]
      exact List.mem_map_of_mem (lookupName_mem hfield)
    exact ((hsolid.part hpart).load_grows hgrows).trans hvalue

namespace Eval

variable {ctx : Context} {start m : Machine} {object taken name : String} {slot : Slot} {id : ObjectId}
  {callable : Callable} {receiver : Option ObjectId}

/-- What `function taken = object.name` leaves behind: the object where it was, and a variable of its
own for the callee. -/
structure Taken (start : Machine) (taken : String) (callable : Callable) (receiver : Option ObjectId)
    (m : Machine) : Prop where
  free : start.env.scopes.lookupCurrent taken = none
  scopes : m.env.scopes = start.env.scopes.addBinding taken
    (start.env.memory.alloc (.atom (.function callable receiver))).1
  memory : m.env.memory = (start.env.memory.alloc (.atom (.function callable receiver))).2

theorem declare_takes {value : Value} {operand : Operand}
    (hrun : declare .function taken (some value) ctx start = (.ok operand, m)) :
    ∃ callable receiver, value = .atom (.function callable receiver) ∧
      Taken start taken callable receiver m := by
  obtain ⟨converted, between, hconvert, hdefine⟩ := andThen_ok hrun
  obtain ⟨bound, after, hbound, hlast⟩ := andThen_ok hdefine
  cases hlast
  cases hresult : value.convert .function with
  | error e =>
    rw [hresult] at hconvert
    cases hconvert
  | ok result =>
    rw [hresult] at hconvert
    cases hconvert
    obtain ⟨rfl, callable, receiver, rfl⟩ := Value.convert_function hresult
    obtain ⟨env, hdefined, rfl⟩ := define_ok hbound
    obtain ⟨hfree, rfl, rfl⟩ := Environment.define_ok hdefined
    exact ⟨callable, receiver, rfl, hfree, rfl, rfl⟩

/-- A member that is a function is what the object calls under the name. -/
theorem member_callee (honce : lookupName name (start.env.memory.instanceOf id).fields = none ∨
      lookupName name (start.env.memory.instanceOf id).methods = none) {found : Operand}
    (hfound : (start.env.memory.instanceOf id).member id name = .ok found)
    (hvalue : valueIn start found = .atom (.function callable receiver)) :
    start.Callee id name callable receiver := by
  unfold Instance.member at hfound
  split at hfound
  · cases hfound
  · cases hfield : lookupName name (start.env.memory.instanceOf id).fields with
    | some field =>
      rw [hfield] at hfound honce
      cases hfound
      exact .field hfield (honce.resolve_left nofun) hvalue
    | none =>
      rw [hfield] at hfound
      cases hmethod : lookupName name (start.env.memory.instanceOf id).methods with
      | some method =>
        rw [hmethod] at hfound
        cases hfound
        cases hvalue
        exact .method hmethod hfield
      | none =>
        rw [hmethod] at hfound
        cases hfound

theorem member_instantiated {found : Operand}
    (hfound : (start.env.memory.instanceOf id).member id name = .ok found) :
    (start.env.memory.instanceOf id).className.isEmpty = false := by
  unfold Instance.member at hfound
  split at hfound
  · cases hfound
  · rename_i hname
    exact Bool.eq_false_of_not_eq_true hname

theorem declaration_takes (hobject : resolve start object = .reference slot)
    (hcontent : start.env.memory.content slot = .object id)
    (honce : lookupName name (start.env.memory.instanceOf id).fields = none ∨
      lookupName name (start.env.memory.instanceOf id).methods = none) {operand : Operand}
    (hrun : evalExpr (.binary .assign (.declare .function taken)
      (.member (.identifier object) name)) ctx start = (.ok operand, m)) :
    (start.env.memory.instanceOf id).className.isEmpty = false ∧
      ∃ callable receiver, start.Callee id name callable receiver ∧
        Taken start taken callable receiver m := by
  rw [evalExpr] at hrun
  obtain ⟨value, between, hvalue, hdeclare⟩ := andThen_ok hrun
  obtain ⟨found, hmember, rfl⟩ := valueBy_inv hvalue
  rw [member_apply hobject hcontent] at hmember
  cases hfound : (start.env.memory.instanceOf id).member id name with
  | error e =>
    rw [hfound] at hmember
    cases hmember
  | ok member =>
    rw [hfound] at hmember
    cases hmember
    obtain ⟨callable, receiver, hfunction, htaken⟩ := declare_takes hdeclare
    exact ⟨member_instantiated hfound, callable, receiver, member_callee honce hfound hfunction,
      htaken⟩

namespace Taken

theorem grows (h : Taken start taken callable receiver m) :
    start.env.memory.Grows m.env.memory := by
  rw [h.memory]
  exact (Memory.alloc_sprouts start.env.memory _).toGrows

/-- The variable of its own stands for the callee. -/
theorem resolved (h : Taken start taken callable receiver m)
    (hname : DataType.ofKeyword? taken = none) :
    ∃ bound, resolve m taken = .reference bound ∧
      m.env.load bound = .atom (.function callable receiver) := by
  refine ⟨(start.env.memory.alloc (.atom (.function callable receiver))).1,
    resolve_bound hname (ScopeStack.lookup_current ?_), ?_⟩
  · rw [h.scopes, ScopeStack.lookupCurrent_addBinding, if_pos rfl]
  · unfold Environment.load
    rw [h.memory]
    exact Memory.load_alloc (.refl _)

/-- The object is where it was. -/
theorem object_resolved (h : Taken start taken callable receiver m) (hother : object ≠ taken)
    (hobject : resolve start object = .reference slot) : resolve m object = .reference slot := by
  obtain ⟨hkeyword, hlookup⟩ := bound_of_resolve hobject
  refine resolve_bound hkeyword ?_
  rw [h.scopes, ScopeStack.lookup_addBinding hother, hlookup]

end Taken

/-- Calling a function by the name of its variable. -/
theorem call_variable {bound : Slot} (hname : resolve m taken = .reference bound)
    (hvalue : m.env.load bound = .atom (.function callable receiver)) (args : List Expr) :
    evalExpr (.call (.identifier taken) args) ctx m =
      (evalArguments args >>= callValue (.atom (.function callable receiver))) ctx m := by
  have hcontent : m.env.memory.content bound = .atom (.function callable receiver) :=
    Memory.content_of_load hvalue
  have hvoid : voidIn? m (.reference bound) = none := by
    simp only [voidIn?, hcontent]
  rw [evalExpr_call, callWith, andThen_apply_ok (valueBy_ok (identifier_apply hname ctx) hvoid)]
  show (evalArguments args >>= callValue (m.env.load bound)) ctx m = _
  rw [hvalue]

theorem call_member (hobject : resolve m object = .reference slot)
    (hcontent : m.env.memory.content slot = .object id) (args : List Expr) :
    evalExpr (.call (.member (.identifier object) name) args) ctx m =
      callObject (.reference slot) id name (evalArguments args) ctx m := by
  rw [evalExpr_callMember, callMemberWith, andThen_apply_ok (identifier_apply hobject ctx),
    andThen_apply_ok (objectVariable_required hcontent)]
  unfold callMember
  rw [andThen_apply_ok (objectOf_object hcontent)]

variable {args : Eval (List Operand)}

theorem callObject_method (hclass : (m.env.memory.instanceOf id).className.isEmpty = false)
    (hmethod : lookupName name (m.env.memory.instanceOf id).methods = some callable) :
    callObject (.reference slot) id name args ctx m =
      (holding [.object id, .slot slot] args >>= fun args =>
        holding [.slot slot] (callFunction callable (some id) args)) ctx m := by
  unfold callObject
  rw [andThen_apply_ok (instantiated_ok hclass)]
  dsimp only
  rw [hmethod]
  rfl

theorem callObject_field {field : Slot}
    (hclass : (m.env.memory.instanceOf id).className.isEmpty = false)
    (hmethod : lookupName name (m.env.memory.instanceOf id).methods = none)
    (hfield : lookupName name (m.env.memory.instanceOf id).fields = some field) :
    callObject (.reference slot) id name args ctx m =
      holding [.object id, .slot slot] (args >>= callValue (m.env.load field)) ctx m := by
  unfold callObject
  rw [andThen_apply_ok (instantiated_ok hclass)]
  dsimp only
  rw [hmethod, hfield]
  rfl

/-- A bound method whose object lies in a variable finds it. -/
theorem callValue_bound (hslot : slot ∈ m.env.scopes.slots)
    (hcontent : m.env.memory.content slot = .object id) (args : List Operand) :
    callValue (.atom (.function callable (some id))) args ctx m =
      callFunction callable (some id) args ctx m := by
  have halive : isAlive m (args.flatMap Operand.anchors ++ ctx.held) id = true :=
    (Bool.or_eq_true _ _).mpr
      (.inl (List.any_eq_true.mpr ⟨slot, hslot, Memory.reachesWithin_here hcontent⟩))
  unfold callValue
  show (if isAlive m (args.flatMap Operand.anchors ++ ctx.held) id then
    callFunction callable (some id) args else raise .danglingReceiver : Eval Operand) ctx m = _
  rw [if_pos halive]

variable {x : Variable} {args : List Expr} {function : Value}

/-- During the call of a method its object need not be held, nor while the arguments are evaluated, if
it then still lies in its variable. -/
theorem method_called (h : ∀ anchors, ctx.Heedless x slot anchors)
    (hslot : m.env.scopes.slotOf x = some slot) (hsolid : m.env.memory.Solid slot)
    (hcontent : m.env.memory.content slot = .object id)
    (hargs : (evalArguments args ctx m).2.env.memory.content slot = .object id) :
    (holding [.object id, .slot slot] (evalArguments args) >>= fun args =>
      holding [.slot slot] (callFunction callable (some id) args)) ctx m =
      (evalArguments args >>= callValue (.atom (.function callable (some id)))) ctx m := by
  have hheedless := (heedless_steps (h [.object id, .slot slot])).evalArguments args
  have hsustains : m.Sustains x slot [.object id, .slot slot] :=
    ⟨hslot, hsolid, by simpa using hsolid.object hcontent⟩
  have hbacks : (evalArguments args ctx m).2.env.memory.Backs slot [.object id, .slot slot] := by
    simp [Memory.Backs, hargs]
  have hsame : evalArguments args { ctx with held := [.object id, .slot slot] ++ ctx.held } m =
      evalArguments args ctx m := hheedless.same (.more _ ctx.held) hsustains hbacks
  have hafter : (evalArguments args ctx m).2.Sustains x slot [.object id, .slot slot] :=
    hsustains.later (hheedless.bound ctx.held m) (hheedless.stores ctx.held m)
  rw [andThen_apply, andThen_apply, holding_apply, hsame]
  generalize evalArguments args ctx m = evaluated at hargs hafter
  obtain ⟨result, after⟩ := evaluated
  cases result with
  | error fault => rfl
  | ok operands =>
    dsimp only
    rw [callValue_bound (ScopeStack.slotOf_mem hafter.slotOf) hargs]
    have hcall := (heedless_steps (h [.slot slot])).callFunction callable (some id) operands
    refine hcall.same (.more _ ctx.held) ⟨hafter.slotOf, hafter.solid, by simp⟩ ?_
    simp [Memory.Backs]

/-- Nor need the object of a field be held during the call of the function in it, if it still lies in
its variable in the end. -/
theorem field_called (h : ctx.Heedless x slot [.object id, .slot slot])
    (hslot : m.env.scopes.slotOf x = some slot) (hsolid : m.env.memory.Solid slot)
    (hcontent : m.env.memory.content slot = .object id)
    (hend : ((evalArguments args >>= callValue function) ctx m).2.env.memory.content slot =
      .object id) :
    holding [.object id, .slot slot] (evalArguments args >>= callValue function) ctx m =
      (evalArguments args >>= callValue function) ctx m := by
  have hsteps := heedless_steps h
  have hheedless := hsteps.bind (hsteps.evalArguments args) (hsteps.callValue function)
  refine hheedless.same (.more _ ctx.held) ⟨hslot, hsolid, ?_⟩ ?_
  · simpa using hsolid.object hcontent
  · simp [Memory.Backs, hend]

end Eval

namespace Session

variable {host : Host} {start m : Machine} {object taken name : String} {slot : Slot} {id : ObjectId}

/-- Calling a member of an object in a variable is calling it after it was taken. Let
`function taken = object.name` have succeeded. Then `taken(args)` and `object.name(args)` do the same
call of the same function, with the same receiver and arguments, and so have the same result or fault
and leave the same machine. The arguments have to leave the object in its variable, as they do if they
have no side effects, and a function that lies in a field has to leave it there as well; and the name
must not be that of a field and of a method. -/
theorem taken_member_called (hbound : ∀ level, host.KeepsBound level) (hstores : host.Keeps Stores)
    (hheedless : host.Heedless) {budget : Nat} {held : List Anchor} (hsound : start.env.Sound)
    (hobject : resolve start object = .reference slot)
    (hcontent : start.env.memory.content slot = .object id)
    (hname : DataType.ofKeyword? taken = none) (hother : object ≠ taken)
    (honce : lookupName name (start.env.memory.instanceOf id).fields = none ∨
      lookupName name (start.env.memory.instanceOf id).methods = none) {operand : Operand}
    (htaken : evalExpr (.binary .assign (.declare .function taken)
      (.member (.identifier object) name)) (context host budget held) start = (.ok operand, m))
    (args : List Expr)
    (hargs : (evalArguments args (context host budget held) m).2.env.memory.content slot =
      .object id)
    (hfield : (lookupName name (start.env.memory.instanceOf id).fields).isSome →
      (evalExpr (.call (.identifier taken) args) (context host budget held) m).2.env.memory.content
        slot = .object id) :
    ∃ callable receiver, start.Callee id name callable receiver ∧
      evalExpr (.call (.identifier taken) args) (context host budget held) m =
        (evalArguments args >>= Eval.callValue (.atom (.function callable receiver)))
          (context host budget held) m ∧
      evalExpr (.call (.member (.identifier object) name) args) (context host budget held) m =
        (evalArguments args >>= Eval.callValue (.atom (.function callable receiver)))
          (context host budget held) m := by
  obtain ⟨level, hslot⟩ := resolve_variable hobject
  have hsolid := hsound slot (ScopeStack.slotOf_mem hslot)
  obtain ⟨hclass, callable, receiver, hcallee, hafter⟩ :=
    Eval.declaration_takes hobject hcontent honce htaken
  have hgrows := hafter.grows
  have hinstance := hgrows.instanceOf id (hsolid.object hcontent)
  have hcallee' := hcallee.grown hgrows hsolid hcontent
  have hobject' := hafter.object_resolved hother hobject
  have hcontent' := (hgrows.content slot hsolid.bound).trans hcontent
  have hsolid' := hgrows.solid hsolid
  rw [← hinstance] at hclass hfield
  obtain ⟨level', hslot'⟩ := resolve_variable hobject'
  obtain ⟨bound, hvariable, hvalue⟩ := hafter.resolved hname
  have hcalled : evalExpr (.call (.identifier taken) args) (context host budget held) m =
      (evalArguments args >>= Eval.callValue (.atom (.function callable receiver)))
        (context host budget held) m := Eval.call_variable hvariable hvalue args
  have hheedless (anchors : List Anchor) :
      (context host budget held).Heedless ⟨level', object⟩ slot anchors :=
    context_heedless hbound hstores hheedless budget held
  refine ⟨callable, receiver, hcallee, hcalled, ?_⟩
  rw [Eval.call_member hobject' hcontent']
  cases hcallee' with
  | method hmethod hnone =>
    rw [Eval.callObject_method hclass hmethod]
    exact Eval.method_called hheedless hslot' hsolid' hcontent' hargs
  | field hsome hnone hload =>
    have hend := hfield (hsome ▸ rfl)
    rw [hcalled] at hend
    rw [Eval.callObject_field hclass hnone hsome, hload]
    exact Eval.field_called (hheedless _) hslot' hsolid' hcontent' hend

open ScriptCall (alive replacer)

/-- An interpreter that knows a class with a field `n` for a function and one method, which prints. -/
def withTalkers (method : String) : Machine :=
  { Machine.initial { Options.standard with errorFormat := "" } (.shelf ⟨[]⟩) with
    classes := ClassTable.builtin ++ [⟨101, "A", [⟨.function, "n"⟩], [(method, .user alive)]⟩] }

/-- With an object of the class in `o`. -/
def withTalker (method : String) : Machine :=
  (evalExpr (.declare (.object "A") "o") (context .none 1 []) (withTalkers method)).2

theorem withTalker_sound (method : String) : (withTalker method).env.Sound :=
  have hstart : Machine.Reached 1 .empty [] (withTalkers method) :=
    .aside (.start .standard (.shelf ⟨[]⟩)) rfl
  (hstart.evaluated (.declare (.object "A") "o") 1 []).inOrder.upholds.sound

/-- The declaration `function taken = o.name`. -/
def takes (taken name : String) : Expr :=
  .binary .assign (.declare .function taken) (.member (.identifier "o") name)

theorem method_called_as_taken :
    let ctx := context .none 1 []
    let m := (evalExpr (takes "k" "m") ctx (withTalker "m")).2
    evalExpr (.call (.identifier "k") []) ctx m =
        evalExpr (.call (.member (.identifier "o") "m") []) ctx m ∧
      (evalExpr (.call (.identifier "k") []) ctx m).2.events = [.printed "1\n"] := by
  intro ctx m
  have hobject : resolve (withTalker "m") "o" = .reference ⟨1⟩ := rfl
  have hcontent : (withTalker "m").env.memory.content ⟨1⟩ = .object 0 := rfl
  have hfields : lookupName "m" ((withTalker "m").env.memory.instanceOf 0).fields = none := rfl
  have htaken : evalExpr (takes "k" "m") ctx (withTalker "m") = (.ok (.reference ⟨2⟩), m) := rfl
  have hargs : (evalArguments [] ctx m).2.env.memory.content ⟨1⟩ = .object 0 := rfl
  obtain ⟨callable, receiver, -, hcall, hmember⟩ :=
    taken_member_called Host.none_keepsBound (Host.none_keeps Stores.lasting) Host.none_heedless
      (withTalker_sound "m") hobject hcontent rfl (by decide) (.inl hfields) htaken [] hargs
      fun hsome => by rw [hfields] at hsome; cases hsome
  have hevents : (evalExpr (.call (.identifier "k") []) (context .none 1 [])
      (evalExpr (takes "k" "m") (context .none 1 []) (withTalker "m")).2).2.events =
        [.printed "1\n"] := by
    rw [Eval.evalExpr_call]
    cbv
  exact ⟨hcall.trans hmember.symm, hevents⟩

/-- With a function in the field. -/
def withField (method : String) (callable : Callable) : Machine :=
  let m := withTalker method
  { m with env := m.env.write ⟨0⟩ (.atom (.function callable none)) }

/-- A function that gives `o` another object and calls `g`. -/
def replacing : UserFunction := ⟨102, "f", [], .void, replacer.body, "", 1, false⟩

/-- With a function in the field that calls `g`, the method of the object in `o`, once this is gone. -/
def withReplacing : Machine :=
  (evalExpr (takes "g" "m") (context .none 1 []) (withField "m" (.user replacing))).2

/-- A function without parameters reports what its body does. -/
theorem callUser_errors {called : UserFunction} {ctx : Context} {m : Machine}
    (hparams : called.params = []) (hdepth : m.callDepth < m.options.maxCallDepth) :
    (Eval.callUser called none [] ctx m).2.errorCount =
      (ctx.runBody ctx.held called.body true (Eval.entered called.file m)).2.errorCount := by
  have hcheck : Eval.checkCallDepth ctx m = (.ok (), m) := by
    rw [Eval.checkCallDepth_apply, if_neg (Nat.not_le.mpr hdepth)]
  have hrun : Eval.callUser called none [] ctx m =
      (Eval.inFrame called.file (Eval.runBody called.body true) >>= fun flow => do
        return .ofValue (← Eval.ofExcept (Eval.checkReturn called (Eval.givenBack flow)))) ctx m := by
    unfold Eval.callUser
    rw [Eval.andThen_apply_ok hcheck, hparams]
    rfl
  rw [hrun, Eval.andThen_apply, Eval.inFrame_apply, Eval.runBody_apply]
  generalize ctx.runBody ctx.held called.body true (Eval.entered called.file m) = body
  obtain ⟨result, after⟩ := body
  cases result with
  | error fault => rfl
  | ok flow =>
    dsimp only
    rw [Eval.andThen_apply, Eval.ofExcept_apply]
    cases Eval.checkReturn called (Eval.givenBack flow) <;> rfl

/-- The machine once `function k = o.n` has taken the function that replaces its object. -/
def replacingTaken : Machine := (evalExpr (takes "k" "n") (context .none 2 []) withReplacing).2

/-- During `o.n()` the object that was replaced is still there. -/
theorem replacing_member : (evalExpr (.call (.member (.identifier "o") "n") []) (context .none 2 [])
    replacingTaken).2.errorCount = 0 := by
  rw [Eval.evalExpr_callMember]
  cbv

/-- During `k()` it is not. -/
theorem replacing_variable :
    (evalExpr (.call (.identifier "k") []) (context .none 2 []) replacingTaken).2.errorCount = 1 := by
  have hcall : Eval.callWith (evalExpr (.identifier "k")) (evalArguments []) (context .none 2 [])
      replacingTaken = Eval.callUser replacing none [] (context .none 2 []) replacingTaken := rfl
  rw [Eval.evalExpr_call, hcall, callUser_errors rfl (by decide)]
  show (Run.runLines replacer.body true _ _).2.errorCount = 1
  rw [Run.runLines_apply, ScriptCall.replacer_script]
  rfl

/-- Where the name is that of a field and of a method, the field is taken and the method is called. Where
the function in the field gives the variable another object, a method of the first object still finds it
during `o.n()`, and does not during `k()`. -/
theorem field_not_called_as_taken :
    let ctx := context .none 2 []
    (∃ operand m,
      evalExpr (takes "k" "n") ctx (withField "n" (.builtin .printLine)) = (.ok operand, m) ∧
        (evalExpr (.call (.identifier "k") []) ctx m).2.events ≠
          (evalExpr (.call (.member (.identifier "o") "n") []) ctx m).2.events) ∧
    ∃ operand m, evalExpr (takes "k" "n") ctx withReplacing = (.ok operand, m) ∧
      (evalExpr (.call (.identifier "k") []) ctx m).2.errorCount ≠
        (evalExpr (.call (.member (.identifier "o") "n") []) ctx m).2.errorCount := by
  refine ⟨⟨.reference ⟨2⟩, _, rfl, ?_⟩, .reference ⟨3⟩, replacingTaken, rfl, ?_⟩
  · rw [Eval.evalExpr_call, Eval.evalExpr_callMember]
    cbv
    decide
  · rw [replacing_member, replacing_variable]
    exact Nat.one_ne_zero

end Session

end BuildScript
