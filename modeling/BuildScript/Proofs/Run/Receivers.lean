import BuildScript.Proofs.Evaluation.Names
import BuildScript.Proofs.Run.Sharing
import BuildScript.Proofs.Scopes.Calls

/-!
The receiver of the running method. It is bound to the name `this` in the scope of the call, and a
member `.name` is looked up in whatever `this` stands for. So it is the receiver's as long as no block
of the method declares a `this` of its own; and where no method runs there is nothing to find, unless
some variable or parameter has that name.
-/

namespace BuildScript

open Eval (Keeps Chains Bound entered bindCall evalExpr memberOf)
open Machine (KeepsBound Stores)

namespace Memory

variable {a b : Memory} {slot : Slot}

/-- A slot was assigned at some time between. -/
def Assigned (slot : Slot) (a b : Memory) : Prop :=
  ∃ here value, a.History here ∧ (here.write slot value).History b

/-- A slot that is not assigned goes on holding what it holds. -/
theorem History.content_or (h : a.History b) (hslot : slot.index < a.cells.size) :
    b.content slot = a.content slot ∨ Assigned slot a b := by
  have hbound {b : Memory} (h : a.History b) : slot.index < b.cells.size :=
    Nat.lt_of_lt_of_le hslot h.sizes.1
  induction h with
  | none => exact .inl rfl
  | stored h hgrows ih =>
    rcases ih with hsame | ⟨here, value, hbefore, hafter⟩
    · exact .inl ((hgrows.content slot (hbound h)).trans hsame)
    · exact .inr ⟨here, value, hbefore, hafter.stored hgrows⟩
  | @written b h target written ih =>
    by_cases htarget : slot = target
    · subst htarget
      exact .inr ⟨b, written, h, .none⟩
    · rcases ih with hsame | ⟨here, value, hbefore, hafter⟩
      · exact .inl ((content_write_of_ne (hbound h) htarget written).trans hsame)
      · exact .inr ⟨here, value, hbefore, hafter.written target written⟩

end Memory

/-- What runs: the innermost call, or the script outside of all calls, which has no receiver. -/
structure Activation where
  /-- The number of scopes above the global one, up to that of the call. -/
  level : Nat
  receiver : Option ObjectId
  /-- The machine when the lines of the body began. -/
  begun : Machine

/-- The states of running scripts, with what runs in them innermost. A script starts outside of all
blocks. It goes on with evaluations, assignments, items, and whole bodies and files, which all come
back to where they began, and every call starts another body. -/
inductive Machine.Running (host : Host) : Activation → Machine → Prop
  | start {m : Machine} (h : m.env.scopes.inner = []) : Running host ⟨0, none, m⟩ m
  /-- Anything that leaves the names and the kinds of scopes alone and only adds to storage, as the
  beginning of a statement. -/
  | aside {run : Activation} {a b : Machine} (h : Running host run a)
    (hscopes : a.env.scopes.Within b.env.scopes)
    (hbindings : ∀ level, b.env.scopes.bindingsAt level = a.env.scopes.bindingsAt level)
    (hgrows : a.env.memory.Grows b.env.memory) : Running host run b
  | closes {run : Activation} {a : Machine} (h : Running host run a) {count : Nat}
    (hopen : run.level + count ≤ a.env.scopes.inner.length) :
    Running host run (a.mapScopes (·.without count))
  | evaluated {run : Activation} {a : Machine} (h : Running host run a) (expr : Expr)
    (budget : Nat) (held : List Anchor) :
    Running host run (evalExpr expr (Session.context host budget held) a).2
  | assigned {run : Activation} {a : Machine} (h : Running host run a) (op : Operator)
    (target : Operand) (source : Value) (ctx : Context) :
    Running host run (Eval.assignSource op target source ctx a).2
  | item {run : Activation} {a : Machine} (h : Running host run a) {base : Nat}
    (hbase : run.level < base) (inFunction : Bool) (item : Item) (budget : Nat)
    (held : List Anchor) :
    Running host run (Run.runItem base inFunction item (Session.context host budget held) a).2
  | lines {run : Activation} {a : Machine} (h : Running host run a)
    (lines : List Text.SourceLine) (inFunction : Bool) (budget : Nat) (held : List Anchor) :
    Running host run (Run.runLines lines inFunction (Session.context host budget held) a).2
  /-- A call has bound its receiver and its parameters; its body comes next. -/
  | called {run : Activation} {a : Machine} (h : Running host run a) {file : String}
    {receiver : Option ObjectId} {bound : List (String × Bound)} {ctx : Context} {begun : Machine}
    (hbind : bindCall receiver bound ctx (entered file a) = (.ok (), begun)) :
    Running host ⟨a.env.scopes.depth, receiver, begun⟩ begun

/-- A variable or a parameter has the name `this` and can be seen: in a block of what runs or, where
there is no receiver, in the scope of the call or the global one. -/
def Machine.OwnThis (run : Activation) (m : Machine) (level : Nat) (slot : Slot) : Prop :=
  m.env.scopes.slotOf ⟨level, "this"⟩ = some slot ∧
    (run.level < level ∨ run.receiver = none ∧ (level = run.level ∨ level = 0))

namespace Run

variable {level base : Nat} {ctx : Context}

/-- Items leave the scope of the call where it is, and what they open are blocks. -/
theorem callAt_effects (hctx : ctx.Restores) (hbase : level < base) :
    Effects (fun m m' => m.env.scopes.CallAt level → m'.env.scopes.CallAt level) base ctx where
  refl _ h := h
  trans hab hbc h := hbc (hab h)
  lastIf _ _ h := h
  reportMessage _ _ h := h
  evaluated expr held m h :=
    h.within ((Eval.undisturbed_effects hctx).steps.evalExpr expr held m).scopes
  begun _ h := h.mapCurrent fun _ => rfl
  conditional _ _ h := h.push rfl
  opened _ h := h.opened
  singles _ h := h.singles hbase
  popped _ hdepth h := h.pop (Nat.lt_of_le_of_lt hbase hdepth)
  atLine _ _ h := h
  given _ _ h := h
  registered hregister h := by
    unfold Machine.registerClass at hregister
    split at hregister <;> cases hregister
    exact h
  defined hdefine h := h.within (Machine.Undisturbed.defined hdefine).scopes

end Run

namespace Eval

variable {ctx : Context} {m m' : Machine} {id : ObjectId} {bound : List (String × Bound)}

theorem bindParameters_grows (bound : List (String × Bound)) :
    Keeps (fun m m' => m.env.memory.Grows m'.env.memory) ctx (bindParameters bound) := by
  have hchains : Chains fun m m' : Machine => m.env.memory.Grows m'.env.memory :=
    ⟨fun m => .refl m.env.memory, fun h h' => h.trans h'⟩
  refine hchains.composes.bindParameters ?_ ?_ bound
  · refine fun name slot => hchains.binds fun {m env} hbind => ?_
    obtain ⟨-, rfl⟩ := Environment.bind_ok hbind
    exact .refl _
  · refine fun name value => hchains.defines fun {m slot env} hdefine => ?_
    obtain ⟨-, -, rfl⟩ := Environment.define_ok hdefine
    exact (Memory.place_planted m.env.memory value).push.toGrows

theorem bindCall_restores (receiver : Option ObjectId) (bound : List (String × Bound)) :
    Keeps Machine.Restores ctx (bindCall receiver bound) := by
  have hparameters : Keeps Machine.Restores ctx (bindParameters bound) :=
    Machine.Restores.chains.composes.bindParameters bind_restores define_restores bound
  cases receiver with
  | none => exact hparameters
  | some id =>
    exact Machine.Restores.chains.bind (defineReceiver_restores id) fun _ => hparameters

/-- When the body of a method begins, `this` is bound in the scope of the call and holds the
receiver. -/
theorem bindCall_receiver (hrun : bindCall (some id) bound ctx m = (.ok (), m')) :
    ∃ slot, m'.env.scopes.slotOf ⟨m.env.scopes.inner.length, "this"⟩ = some slot ∧
      slot.index < m'.env.memory.cells.size ∧ m'.env.memory.content slot = .object id := by
  obtain ⟨⟨⟩, between, hreceiver, hparameters⟩ := andThen_ok hrun
  have hgrows : between.env.memory.Grows (bindParameters bound ctx between).2.env.memory :=
    (bindParameters_grows bound).apply between
  have hkept : Keeps (KeepsBound m.env.scopes.inner.length) ctx (bindParameters bound) :=
    bindParameters_keepsBound bound
  have hkept := hkept.apply between
  have hparameters : bindParameters bound ctx between = (.ok (), m') := hparameters
  rw [hparameters] at hgrows hkept
  rw [defineReceiver_apply] at hreceiver
  dsimp only at hreceiver
  cases hbind : Environment.bind
      { m.env with memory := (m.env.memory.push (.object id)).2 } "this"
      (m.env.memory.push (.object id)).1 with
  | error e =>
    rw [hbind] at hreceiver
    cases hreceiver
  | ok env =>
    rw [hbind] at hreceiver
    cases hreceiver
    obtain ⟨-, rfl⟩ := Environment.bind_ok hbind
    have hindex := Memory.push_bound m.env.memory (.object id)
    refine ⟨(m.env.memory.push (.object id)).1, ?_, ?_, ?_⟩
    · apply hkept _ _ (Nat.le_refl _)
      dsimp only
      rw [ScopeStack.slotOf_addBinding, if_pos rfl]
    · exact Nat.lt_of_lt_of_le hindex hgrows.cells
    · rw [hgrows.content _ hindex]
      exact Memory.content_push_self m.env.memory (.object id)

/-- A member of the receiver is that of what `this` stands for. -/
theorem ownMember_found {slot : Slot} (h : m.env.scopes.lookup "this" = some slot) (name : String)
    (ctx : Context) : evalExpr (.ownMember name) ctx m = memberOf (.reference slot) name ctx m := by
  rw [evalExpr]
  exact andThen_apply_ok (receiver_found h ctx)

theorem ownMember_missing (h : m.env.scopes.lookup "this" = none) (name : String) (ctx : Context) :
    evalExpr (.ownMember name) ctx m = (.error (.eval .thisOutsideMethod), m) := by
  rw [evalExpr]
  exact andThen_apply_error (receiver_missing h ctx)

/-- Whatever a slot holds, looking up a member in it is not what fails for want of a method. -/
theorem memberOf_inside (slot : Slot) (name : String) (ctx : Context) (m : Machine) :
    (memberOf (.reference slot) name ctx m).1 ≠ .error (.eval .thisOutsideMethod) := by
  cases hcontent : m.env.memory.content slot with
  | object id =>
    rw [memberOf_object hcontent]
    unfold Instance.member
    split
    · exact fun h => by cases h
    · split <;> exact fun h => by cases h
  | _ =>
    have hnone : objectOf (.reference slot) ctx m = (.ok none, m) := by
      unfold objectOf
      dsimp only
      rw [andThen_apply, machine_apply]
      dsimp only
      rw [hcontent]
      rfl
    unfold memberOf
    rw [andThen_apply_ok hnone]
    dsimp only
    rw [andThen_apply, machine_apply]
    dsimp only
    split <;> exact fun h => by cases h

end Eval

/-- What holds while an activation lasts: its scope is that of the innermost call, the names it began
with are bound, and storage has come from where it was. -/
structure Activation.Lasts (run : Activation) (m : Machine) : Prop where
  scopes : m.env.scopes.CallAt run.level
  bound : run.begun.KeepsBound run.level m
  stores : run.begun.Stores m
  receiver : ∀ id, run.receiver = some id → ∃ slot,
    run.begun.env.scopes.slotOf ⟨run.level, "this"⟩ = some slot ∧
      slot.index < run.begun.env.memory.cells.size ∧
        run.begun.env.memory.content slot = .object id

theorem Activation.Lasts.later {run : Activation} {a b : Machine} (h : run.Lasts a)
    (hscopes : a.env.scopes.CallAt run.level → b.env.scopes.CallAt run.level)
    (hbound : a.KeepsBound run.level b) (hstores : a.Stores b) : run.Lasts b :=
  ⟨hscopes h.scopes, KeepsBound.chains.trans h.bound hbound, Stores.lasting.trans h.stores hstores,
    h.receiver⟩

/-- In every state of running scripts. -/
theorem Machine.Running.lasts {host : Host} (hsteady : host.Steady)
    (hbound : ∀ level, host.KeepsBound level) (hstores : host.Keeps Stores) {run : Activation}
    {m : Machine} (h : m.Running host run) : run.Lasts m := by
  have hrestores := Session.context_restores hsteady
  have hkept (level : Nat) := Session.context_keepsBound (hbound level)
  have hlasts := Stores.context hstores
  have hkeeps (budget : Nat) (held : List Anchor) :
      (Session.context host budget held).Keeps Stores :=
    (hlasts budget held).keeps Stores.lasting fun _ _ => .none
  induction h with
  | start h =>
    refine ⟨⟨[], [], h, rfl, List.forall_mem_nil _, fun _ h => by cases h⟩,
      KeepsBound.chains.refl _, Stores.lasting.refl _, fun id hid => by cases hid⟩
  | aside _ hscopes hbindings hgrows ih =>
    exact ih.later (·.within hscopes) (.of_bindings hbindings) (Memory.History.none.stored hgrows)
  | closes _ hopen ih =>
    exact ih.later (·.without hopen) (.without (by omega)) (Stores.lasting.refl _)
  | @evaluated run a _ expr budget held ih =>
    have hexpr := ((Eval.undisturbed_effects (hrestores budget held)).steps.evalExpr expr).apply a
    refine ih.later (·.within hexpr.scopes) ?_ ?_
    · exact ((Eval.keepsBound_effects (hkept run.level budget held)).steps.evalExpr expr).apply a
    · exact ((Eval.keeps_effects Stores.lasting (hkeeps budget held)).steps.evalExpr expr).apply a
  | @assigned run a _ op target source ctx ih =>
    have hscopes := Eval.assignSource_scopes op target source ctx a
    refine ih.later ?_ (.of_scopes hscopes) (Eval.assignSource_stores op target source ctx a)
    rw [hscopes]
    exact id
  | @item run a _ base hbase inFunction item budget held ih =>
    refine ih.later ?_ ?_ ?_
    · exact ((Run.callAt_effects (hrestores budget held) hbase).lines.runItem inFunction item).apply a
    · exact ((Run.keepsBound_effects (hkept run.level budget held) hbase).lines.runItem inFunction
        item).apply a
    · exact ((Run.keeps_effects Stores.lasting (hkeeps budget held) base).lines.runItem inFunction
        item).apply a
  | @lines run a _ lines inFunction budget held ih =>
    have hlines := Run.runLines_restores (hrestores budget held) lines inFunction a
    exact ih.later (·.within hlines.scopes)
      (Run.runLines_keepsBound (hkept run.level budget held) lines inFunction a)
      (Run.runLines_keeps Stores.lasting (hkeeps budget held) lines inFunction a)
  | @called run a _ file receiver bound ctx begun hbind ih =>
    have hrestores : Keeps Machine.Restores ctx (bindCall receiver bound) :=
      Eval.bindCall_restores receiver bound
    have hrestored := hrestores.apply (entered file a)
    rw [hbind] at hrestored
    have hentered := ScopeStack.CallAt.entered a.env.scopes
    refine ⟨hentered.within hrestored.scopes, KeepsBound.chains.refl _, Stores.lasting.refl _, ?_⟩
    · rintro id rfl
      exact Eval.bindCall_receiver hbind

/-- A `this` of its own that what runs can see is what the name stands for, the nearest one if there
are several. -/
theorem Machine.OwnThis.found {run : Activation} {m : Machine} {level : Nat} {slot : Slot}
    (h : m.OwnThis run level slot) (hscopes : m.env.scopes.CallAt run.level) :
    ∃ nearest found, m.OwnThis run nearest found ∧ m.env.scopes.lookup "this" = some found := by
  by_cases hblock : ∃ above slot, run.level < above ∧ m.env.scopes.slotOf ⟨above, "this"⟩ = some slot
  · obtain ⟨above, inside, habove, hinside⟩ := hblock
    obtain ⟨nearest, found, hnearest, hfound, hlookup⟩ := hscopes.lookup_block habove hinside
    exact ⟨nearest, found, ⟨hfound, .inl hnearest⟩, hlookup⟩
  · have hfree (above : Nat) (habove : run.level < above) :
        m.env.scopes.slotOf ⟨above, "this"⟩ = none := by
      cases hslot : m.env.scopes.slotOf ⟨above, "this"⟩ with
      | none => rfl
      | some slot => exact absurd ⟨above, slot, habove, hslot⟩ hblock
    have hlookup := hscopes.lookup_free hfree
    obtain ⟨hslot, habove | ⟨hreceiver, hlevel⟩⟩ := h
    · exact absurd ⟨level, slot, habove, hslot⟩ hblock
    · cases hcall : m.env.scopes.slotOf ⟨run.level, "this"⟩ with
      | some found =>
        rw [hcall] at hlookup
        exact ⟨run.level, found, ⟨hcall, .inr ⟨hreceiver, .inl rfl⟩⟩, hlookup⟩
      | none =>
        rcases hlevel with rfl | rfl
        · rw [hcall] at hslot
          cases hslot
        · rw [hcall, hslot] at hlookup
          exact ⟨0, slot, ⟨hslot, .inr ⟨hreceiver, .inr rfl⟩⟩, hlookup⟩

namespace Session

variable {host : Host} {run : Activation} {m : Machine}

/-- Outside of methods `.name` is an error exactly as long as no variable or parameter of the name
`this` can be seen. Inside of a method it is the member of the receiver itself, or `this` was
assigned since the method began, as long as no block declares a `this` of its own. Otherwise it is the
member of such a variable. -/
theorem receiver_of_innermost_call (hsteady : host.Steady)
    (hbound : ∀ level, host.KeepsBound level) (hstores : host.Keeps Stores)
    (h : m.Running host run) (name : String) (ctx : Context) :
    (run.receiver = none →
      ((evalExpr (.ownMember name) ctx m).1 = .error (.eval .thisOutsideMethod) ↔
        ∀ level slot, ¬m.OwnThis run level slot)) ∧
    (∀ id, run.receiver = some id → (∀ level slot, ¬m.OwnThis run level slot) →
      ∃ slot, m.env.scopes.slotOf ⟨run.level, "this"⟩ = some slot ∧
        run.begun.env.memory.content slot = .object id ∧
        evalExpr (.ownMember name) ctx m = memberOf (.reference slot) name ctx m ∧
        (evalExpr (.ownMember name) ctx m =
            (((m.env.memory.instanceOf id).member id name).mapError .eval, m) ∨
          Memory.Assigned slot run.begun.env.memory m.env.memory)) ∧
    ∀ level slot, m.OwnThis run level slot → ∃ nearest found, m.OwnThis run nearest found ∧
      evalExpr (.ownMember name) ctx m = memberOf (.reference found) name ctx m := by
  have hlasts := h.lasts hsteady hbound hstores
  have hown (level : Nat) (slot : Slot) (hown : m.OwnThis run level slot) :
      ∃ nearest found, m.OwnThis run nearest found ∧
        evalExpr (.ownMember name) ctx m = memberOf (.reference found) name ctx m := by
    obtain ⟨nearest, found, hfound, hlookup⟩ := hown.found hlasts.scopes
    exact ⟨nearest, found, hfound, Eval.ownMember_found hlookup name ctx⟩
  have hfree (hnone : ∀ level slot, ¬m.OwnThis run level slot) (above : Nat)
      (habove : run.level < above) : m.env.scopes.slotOf ⟨above, "this"⟩ = none := by
    cases hslot : m.env.scopes.slotOf ⟨above, "this"⟩ with
    | none => rfl
    | some slot => exact absurd ⟨hslot, .inl habove⟩ (hnone above slot)
  refine ⟨fun hreceiver => ⟨fun hfails level slot hthis => ?_, fun hnone => ?_⟩, ?_, hown⟩
  · obtain ⟨nearest, found, -, hmember⟩ := hown level slot hthis
    rw [hmember] at hfails
    exact Eval.memberOf_inside found name ctx m hfails
  · have hmissing (level : Nat) (hlevel : level = run.level ∨ level = 0) :
        m.env.scopes.slotOf ⟨level, "this"⟩ = none := by
      cases hslot : m.env.scopes.slotOf ⟨level, "this"⟩ with
      | none => rfl
      | some slot => exact absurd ⟨hslot, .inr ⟨hreceiver, hlevel⟩⟩ (hnone level slot)
    have hlookup := hlasts.scopes.lookup_free (hfree hnone)
    rw [hmissing _ (.inl rfl), hmissing _ (.inr rfl)] at hlookup
    rw [Eval.ownMember_missing hlookup]
  · intro id hreceiver hnone
    obtain ⟨slot, hbegun, hindex, hcontent⟩ := hlasts.receiver id hreceiver
    have hslot := hlasts.bound ⟨run.level, "this"⟩ slot (Nat.le_refl _) hbegun
    have hlookup := hlasts.scopes.lookup_free (hfree hnone)
    rw [hslot] at hlookup
    have hmember := Eval.ownMember_found hlookup name ctx
    refine ⟨slot, hslot, hcontent, hmember, ?_⟩
    rcases hlasts.stores.content_or hindex with hsame | hassigned
    · exact .inl (hmember.trans (Eval.memberOf_object (hsame.trans hcontent)))
    · exact .inr hassigned

/-- An interpreter that knows a class with one field. -/
def withClass : Machine :=
  { Machine.initial .standard (.shelf ⟨[]⟩) with
    classes := ClassTable.builtin ++ [⟨100, "A", [⟨.int, "x"⟩], []⟩] }

/-- The interpreter after `A o`, or with another name for the object. -/
def withObject (name : String) : Machine :=
  (evalExpr (.declare (.object "A") name) (context .none 1 []) withClass).2

/-- In a method that was called on `o`, a member is that of `o`. -/
theorem method_has_receiver :
    let ctx := context .none 1 []
    let begun := (bindCall (some 0) [] ctx (entered "lib.eve" (withObject "o"))).2
    begun.Running .none ⟨1, some 0, begun⟩ ∧
      (∃ slot, begun.env.memory.content slot = .object 0 ∧
        evalExpr (.ownMember "x") ctx begun = memberOf (.reference slot) "x" ctx begun) ∧
      evalExpr (.ownMember "x") ctx begun = (.ok (.reference ⟨0⟩), begun) := by
  intro ctx begun
  have hobject : (withObject "o").Running .none ⟨0, none, withClass⟩ := .evaluated (.start rfl) _ 1 []
  have hbind : bindCall (some 0) [] ctx (entered "lib.eve" (withObject "o")) = (.ok (), begun) := rfl
  have hrunning : begun.Running .none ⟨1, some 0, begun⟩ := .called hobject hbind
  have hnone (level : Nat) (slot : Slot) : ¬begun.OwnThis ⟨1, some 0, begun⟩ level slot := by
    rintro ⟨hslot, habove | ⟨hreceiver, -⟩⟩
    · unfold ScopeStack.slotOf at hslot
      rw [ScopeStack.bindingsAt_above begun.env.scopes habove] at hslot
      cases hslot
    · cases hreceiver
  obtain ⟨-, hmethod, -⟩ := receiver_of_innermost_call Host.none_steady Host.none_keepsBound
    (Host.none_keeps Stores.lasting) hrunning "x" ctx
  obtain ⟨slot, -, hcontent, hmember, -⟩ := hmethod 0 rfl hnone
  exact ⟨hrunning, ⟨slot, hcontent, hmember⟩, rfl⟩

/-- After `A this` at the top level, where no method runs, `.x` is a member of that variable. -/
theorem variable_taken_for_receiver :
    let ctx := context .none 1 []
    (withObject "this").Running .none ⟨0, none, withClass⟩ ∧
      evalExpr (.ownMember "x") ctx (withObject "this") =
        (.ok (.reference ⟨0⟩), withObject "this") ∧
      (evalExpr (.ownMember "x") ctx (withObject "this")).1 ≠
        .error (.eval .thisOutsideMethod) := by
  intro ctx
  refine ⟨.evaluated (.start rfl) _ 1 [], rfl, ?_⟩
  intro h
  cases h

end Session

end BuildScript
