import BuildScript.Proofs.Evaluation.Names
import BuildScript.Proofs.Run.Including
import BuildScript.Proofs.Storage.Histories
import BuildScript.Proofs.Typing.Protocol

/-!
A by-reference parameter is the variable it was given. Both names are bound to one slot, and neither
is ever bound to another as long as its scope is open: what is written through one is read through
the other, at every moment of the call and after it.
-/

namespace BuildScript

open Eval (Keeps Bound entered left bindCall)
open Machine (KeepsBound Stores)
open Protocol (callChecks firstViolation readyAll answer)

/-- What comes after a machine while the scope with so many scopes below it stays open, storage
included: evaluations, assignments, items above that scope, whole bodies and files, the calls that
are entered, and what these close. -/
inductive Machine.Continues (host : Host) (level : Nat) (m : Machine) : Machine → Prop
  | now : Continues host level m m
  /-- Anything that leaves the names alone and only adds to storage. -/
  | aside {a b : Machine} (h : Continues host level m a) (hscopes : b.env.scopes = a.env.scopes)
    (hgrows : a.env.memory.Grows b.env.memory) : Continues host level m b
  /-- Scopes above are closed, as at the end of a statement, of a block or of a call. -/
  | closes {a : Machine} (h : Continues host level m a) {count : Nat}
    (hopen : level + count ≤ a.env.scopes.inner.length) :
    Continues host level m (a.mapScopes (·.without count))
  | evaluated {a : Machine} (h : Continues host level m a) (expr : Expr) (budget : Nat)
    (held : List Anchor) :
    Continues host level m (Eval.evalExpr expr (Session.context host budget held) a).2
  | assigned {a : Machine} (h : Continues host level m a) (op : Operator) (target : Operand)
    (source : Value) (ctx : Context) :
    Continues host level m (Eval.assignSource op target source ctx a).2
  | item {a : Machine} (h : Continues host level m a) {base : Nat} (hbase : level < base)
    (inFunction : Bool) (item : Item) (budget : Nat) (held : List Anchor) :
    Continues host level m
      (Run.runItem base inFunction item (Session.context host budget held) a).2
  | lines {a : Machine} (h : Continues host level m a) (lines : List Text.SourceLine)
    (inFunction : Bool) (budget : Nat) (held : List Anchor) :
    Continues host level m (Run.runLines lines inFunction (Session.context host budget held) a).2
  /-- A call has bound its receiver and its parameters; its body comes next. -/
  | called {a : Machine} (h : Continues host level m a) (file : String) (receiver : Option ObjectId)
    (bound : List (String × Bound)) (ctx : Context) :
    Continues host level m (bindCall receiver bound ctx (entered file a)).2

namespace Eval

variable {ctx : Context}

/-- An assignment that does not fail writes to the slot that it is given. -/
theorem assignSource_written (op : Operator) (target : Operand) (source : Value) (ctx : Context)
    (m : Machine) :
    (∃ fault, assignSource op target source ctx m = (.error fault, m)) ∨
      ∃ slot value, target = .reference slot ∧ assignSource op target source ctx m =
        (.ok target, { m with env := m.env.write slot value }) := by
  have hassign (source : Value) : (∃ fault, assign target source ctx m = (.error fault, m)) ∨
      ∃ slot value, target = .reference slot ∧ assign target source ctx m =
        (.ok target, { m with env := m.env.write slot value }) := by
    cases target with
    | temporary value isLiteral => exact .inl ⟨_, rfl⟩
    | reference slot =>
      unfold assign
      simp only [andThen_apply, machine_apply, liftM_eq, ofExcept_apply]
      cases stored (typeIn m (.reference slot)) source with
      | error e => exact .inl ⟨_, rfl⟩
      | ok value => exact .inr ⟨slot, value, rfl, rfl⟩
  unfold assignSource
  cases op.compoundBase? with
  | none => exact hassign source
  | some base =>
    simp only [valueOf, andThen_apply, machine_apply, pure_apply, ofExcept_apply]
    cases Operation.binary base (valueIn m target) source with
    | error e => exact .inl ⟨_, rfl⟩
    | ok value => exact hassign value

theorem assignSource_scopes (op : Operator) (target : Operand) (source : Value) (ctx : Context)
    (m : Machine) : (assignSource op target source ctx m).2.env.scopes = m.env.scopes := by
  rcases assignSource_written op target source ctx m with ⟨_, hrun⟩ | ⟨_, _, -, hrun⟩ <;> rw [hrun]
  rfl

theorem assignSource_stores (op : Operator) (target : Operand) (source : Value) (ctx : Context)
    (m : Machine) : m.Stores (assignSource op target source ctx m).2 := by
  rcases assignSource_written op target source ctx m with ⟨_, hrun⟩ | ⟨slot, value, -, hrun⟩ <;>
    rw [hrun]
  · exact Stores.lasting.refl m
  · exact Stores.lasting.written m slot value

/-- A name that was bound is bound in the innermost scope. -/
theorem bind_slotOf {name : String} {slot : Slot} {m m' : Machine}
    (hrun : Eval.bind name slot ctx m = (.ok (), m')) :
    m'.env.scopes.slotOf ⟨m.env.scopes.inner.length, name⟩ = some slot := by
  obtain ⟨env, hbind, rfl⟩ := bind_ok hrun
  obtain ⟨-, rfl⟩ := Environment.bind_ok hbind
  rw [ScopeStack.slotOf_addBinding, if_pos rfl]

theorem length_restored {α : Type} {x : Eval α} (h : Keeps Machine.Restores ctx x) {m m' : Machine}
    {result : Except Fault α} (hrun : x ctx m = (result, m')) :
    m'.env.scopes.inner.length = m.env.scopes.inner.length := by
  have hrestores := h.apply m
  rw [hrun] at hrestores
  exact hrestores.scopes.length_inner

theorem bindParameters_keepsBound {level : Nat} (bound : List (String × Bound)) :
    Keeps (KeepsBound level) ctx (bindParameters bound) :=
  KeepsBound.chains.composes.bindParameters bind_keepsBound define_keepsBound bound

/-- Parameters are bound in the innermost scope, those by reference to the slots they were given. -/
theorem bindParameters_shared {bound : List (String × Bound)} {m m' : Machine}
    (hrun : bindParameters bound ctx m = (.ok (), m')) {name : String} {slot : Slot}
    (hmem : (name, .shared slot) ∈ bound) :
    m'.env.scopes.slotOf ⟨m.env.scopes.inner.length, name⟩ = some slot := by
  induction bound generalizing m with
  | nil => exact absurd hmem List.not_mem_nil
  | cons first rest ih =>
    have hbound (between : Machine) (hrest : bindParameters rest ctx between = (.ok (), m')) :
        between.KeepsBound m.env.scopes.inner.length m' := by
      have hkeeps : Keeps (KeepsBound m.env.scopes.inner.length) ctx (bindParameters rest) :=
        bindParameters_keepsBound rest
      have hafter := hkeeps.apply between
      rwa [hrest] at hafter
    obtain ⟨other, argument⟩ := first
    cases argument with
    | shared found =>
      obtain ⟨⟨⟩, between, hfirst, hrest⟩ := andThen_ok hrun
      rcases List.mem_cons.mp hmem with heq | hmem
      · cases heq
        exact hbound between hrest _ _ (Nat.le_refl _) (bind_slotOf hfirst)
      · rw [← length_restored (bind_restores other found) hfirst]
        exact ih hrest hmem
    | fresh value =>
      obtain ⟨_, between, hfirst, hrest⟩ := andThen_ok hrun
      rcases List.mem_cons.mp hmem with heq | hmem
      · cases heq
      · rw [← length_restored (define_restores other value) hfirst]
        exact ih hrest hmem

/-- The receiver does not stand in the way of the parameters. -/
theorem bindCall_shared {receiver : Option ObjectId} {bound : List (String × Bound)}
    {m m' : Machine} (hrun : bindCall receiver bound ctx m = (.ok (), m')) {name : String}
    {slot : Slot} (hmem : (name, .shared slot) ∈ bound) :
    m'.env.scopes.slotOf ⟨m.env.scopes.inner.length, name⟩ = some slot := by
  cases receiver with
  | none => exact bindParameters_shared hrun hmem
  | some id =>
    obtain ⟨⟨⟩, between, hreceiver, hparams⟩ := andThen_ok hrun
    rw [← length_restored (defineReceiver_restores id) hreceiver]
    exact bindParameters_shared hparams hmem

theorem bindCall_keepsBound {level : Nat} (receiver : Option ObjectId)
    (bound : List (String × Bound)) : Keeps (KeepsBound level) ctx (bindCall receiver bound) := by
  cases receiver with
  | none => exact bindParameters_keepsBound bound
  | some id =>
    exact KeepsBound.chains.bind (defineReceiver_keepsBound id) fun _ => bindParameters_keepsBound bound

theorem bindCall_stores (receiver : Option ObjectId) (bound : List (String × Bound)) :
    Keeps Stores ctx (bindCall receiver bound) := by
  have hparams : Keeps Stores ctx (bindParameters bound) :=
    Stores.lasting.composes.bindParameters (bind_keeps Stores.lasting) (define_keeps Stores.lasting)
      bound
  cases receiver with
  | none => exact hparams
  | some id =>
    exact Stores.lasting.bind (defineReceiver_keeps Stores.lasting id) fun _ => hparams

end Eval

namespace Machine.Continues

variable {host : Host} {level : Nat} {m later : Machine}

theorem follows (h : m.Continues host level later) : m.Follows host level later := by
  induction h with
  | now => exact .now
  | aside _ hscopes _ ih => exact ih.aside hscopes
  | closes _ hopen ih => exact ih.closes hopen rfl
  | evaluated _ expr budget held ih => exact ih.evaluated expr budget held
  | assigned _ op target source ctx ih => exact ih.aside (Eval.assignSource_scopes op target source ctx _)
  | item _ hbase inFunction item budget held ih => exact ih.item hbase inFunction item budget held
  | lines _ lines inFunction budget held ih => exact ih.lines lines inFunction budget held
  | called _ file receiver bound ctx ih => exact ih.called file receiver bound ctx

/-- Storage is changed by storing values and writing slots only. -/
theorem stores (hhost : host.Keeps Stores) (h : m.Continues host level later) : m.Stores later := by
  have hR := Stores.lasting
  have hcontext := Stores.context hhost
  have hkeeps (budget : Nat) (held : List Anchor) :
      (Session.context host budget held).Keeps Stores :=
    (hcontext budget held).keeps hR fun _ _ => .none
  induction h with
  | now => exact hR.refl m
  | aside _ _ hgrows ih => exact ih.stored hgrows
  | closes _ _ ih => exact ih
  | @evaluated a _ expr budget held ih =>
    exact hR.trans ih (((Eval.keeps_effects hR (hkeeps budget held)).steps.evalExpr expr).apply a)
  | @assigned a _ op target source ctx ih =>
    exact hR.trans ih (Eval.assignSource_stores op target source ctx a)
  | @item a _ base _ inFunction item budget held ih =>
    exact hR.trans ih (((Run.keeps_effects hR (hkeeps budget held) base).lines.runItem inFunction
      item).apply a)
  | @lines a _ lines inFunction budget held ih =>
    exact hR.trans ih (Run.runLines_keeps hR (hkeeps budget held) lines inFunction a)
  | @called a _ file receiver bound ctx ih =>
    exact hR.trans ih ((Eval.bindCall_stores receiver bound).apply (entered file a))

end Machine.Continues

/-- The value of a variable, if there is one of the name in its scope. -/
def Machine.valueOf (m : Machine) (x : Variable) : Option Value :=
  (m.env.scopes.slotOf x).map m.env.load

/-- The name of the variable stands for it: no keyword and no nearer scope takes it. -/
def Machine.Sees (m : Machine) (x : Variable) : Prop :=
  DataType.ofKeyword? x.name = none ∧ m.env.scopes.lookup x.name = m.env.scopes.slotOf x

namespace Protocol

variable {m begun : Machine} {function : UserFunction} {receiver : Option ObjectId}
  {args : List Operand} {ctx : Context} {slot : Slot} {x : Variable}

/-- The body of a call comes next: no check is violated, and the receiver and the parameters are
bound. -/
structure Begins (m : Machine) (function : UserFunction) (receiver : Option ObjectId)
    (args : List Operand) (ctx : Context) (begun : Machine) : Prop where
  admitted : firstViolation (callChecks m function args) = none
  bound : bindCall receiver (readyAll m (function.params.zip args)) ctx (entered function.file m) =
    (.ok (), begun)

/-- The names of a slot during a call: variables of the caller, and the by-reference parameters that
it was given for. -/
inductive Names (m : Machine) (function : UserFunction) (args : List Operand) (slot : Slot) :
    Variable → Prop
  | outer {x : Variable} (h : m.env.scopes.slotOf x = some slot) : Names m function args slot x
  | parameter {param : Parameter} (hmem : (param, .reference slot) ∈ function.params.zip args)
    (hreference : param.byReference = true) :
    Names m function args slot ⟨m.env.scopes.depth, param.name⟩

theorem Names.level (h : Names m function args slot x) : x.level ≤ m.env.scopes.depth := by
  cases h with
  | outer h => exact Nat.le_succ_of_le (ScopeStack.slotOf_level h)
  | parameter => exact Nat.le_refl _

/-- A call that has begun runs its body and is left, however the body ends. -/
theorem Begins.after (h : Begins m function receiver args ctx begun) :
    (Eval.callUser function receiver args ctx m).2 =
      left m (ctx.runBody ctx.held function.body true begun).2 := by
  rw [(callUser_admitted h.admitted).2, callBody_bound h.bound]
  obtain ⟨result, after⟩ := ctx.runBody ctx.held function.body true begun
  cases result <;> rfl

theorem Begins.stores (h : Begins m function receiver args ctx begun) : m.Stores begun := by
  have hbound : Keeps Stores ctx (bindCall receiver (readyAll m (function.params.zip args))) :=
    Eval.bindCall_stores receiver _
  have hstores := hbound.apply (entered function.file m)
  rwa [h.bound] at hstores

/-- All names of the slot are bound to it when the body begins. -/
theorem Begins.slotOf (h : Begins m function receiver args ctx begun)
    (hx : Names m function args slot x) : begun.env.scopes.slotOf x = some slot := by
  cases hx with
  | outer hslot =>
    have hentered : m.KeepsBound x.level (entered function.file m) := Eval.entered_keepsBound _ m
    have hbound : Keeps (KeepsBound x.level) ctx
        (bindCall receiver (readyAll m (function.params.zip args))) :=
      Eval.bindCall_keepsBound receiver _
    have hkept := hbound.apply (entered function.file m)
    rw [h.bound] at hkept
    exact hentered.trans hkept x slot (Nat.le_refl _) hslot
  | parameter hmem hreference =>
    exact Eval.bindCall_shared h.bound (mem_readyAll_shared hmem hreference)

end Protocol

namespace Session

open Protocol (Begins Names)
open Memory (Spares)

variable {host : Host} {m begun : Machine} {function : UserFunction} {receiver : Option ObjectId}
  {args : List Operand} {slot : Slot} {budget : Nat} {held : List Anchor}

/-- The body of a call goes on while the scope of the call is open. -/
theorem body_continues (host : Host) (budget : Nat) (held held' : List Anchor)
    (lines : List Text.SourceLine) (level : Nat) (begun : Machine) :
    begun.Continues host level
      ((context host budget held).runBody held' lines true begun).2 := by
  cases budget with
  | zero => exact .now
  | succ budget => exact Machine.Continues.now.lines lines true budget held'

/-- A name that stands for a slot is that of a variable. -/
theorem resolve_variable {m : Machine} {name : String} {slot : Slot}
    (h : Eval.resolve m name = .reference slot) :
    ∃ level, m.env.scopes.slotOf ⟨level, name⟩ = some slot :=
  ScopeStack.lookup_level (Eval.bound_of_resolve h).2

theorem resolve_seen {m : Machine} {x : Variable} {slot : Slot}
    (hslot : m.env.scopes.slotOf x = some slot) (h : m.Sees x) :
    Eval.resolve m x.name = .reference slot := by
  obtain ⟨hkeyword, hlookup⟩ := h
  unfold Eval.resolve
  rw [hkeyword, hlookup, hslot]

/-- A by-reference parameter is the variable it was given. Take a slot that a name stands for, and a
call that is made with it, once all arguments are there. As long as the call lasts, all names of the
slot have one value: the variable, other variables that are bound to it, and all parameters that it
was given for. What is written through any of them is the value of all, until something in it is
written again. After the call the variable has the value that the body left, which is that of the
last write. -/
theorem parameters_shared (hbound : ∀ level, host.KeepsBound level) (hstores : host.Keeps Stores)
    (hsound : m.env.Sound) {before : Machine} {name : String}
    (hgiven : Eval.resolve before name = .reference slot)
    (harguments : before.Continues host before.env.scopes.inner.length m)
    (hbegins : Begins m function receiver args (context host budget held) begun) :
    let done := ((context host budget held).runBody (context host budget held).held function.body
      true begun).2
    let after := (Eval.callUser function receiver args (context host budget held) m).2
    (∃ level, before.env.scopes.slotOf ⟨level, name⟩ = some slot ∧
      m.env.scopes.slotOf ⟨level, name⟩ = some slot) ∧
    (∀ later, begun.Continues host m.env.scopes.depth later → ∀ x, Names m function args slot x →
      later.valueOf x = some (later.env.load slot) ∧
        (later.Sees x → Eval.resolve later x.name = .reference slot)) ∧
    (∀ here, begun.Continues host m.env.scopes.depth here → ∀ op source ctx result there,
      Eval.assignSource op (.reference slot) source ctx here = (.ok result, there) →
        begun.Continues host m.env.scopes.depth there ∧ ∃ value,
          there.env = here.env.write slot value ∧ there.env.load slot = value ∧
            (Spares slot there.env.memory done.env.memory → done.env.load slot = value)) ∧
    begun.Continues host m.env.scopes.depth done ∧
    (∀ x, m.env.scopes.slotOf x = some slot → after.valueOf x = some (done.env.load slot)) ∧
    (Spares slot begun.env.memory done.env.memory ∧
        done.env.load slot = begun.env.load slot ∨
      ∃ here target value, begun.env.memory.History here ∧ here.Inside slot target ∧
        Spares slot (here.write target value) done.env.memory ∧
          done.env.load slot = (here.write target value).load slot ∧
            (target = slot → done.env.load slot = value)) := by
  intro done after
  obtain ⟨level, hvariable⟩ := resolve_variable hgiven
  have hnamed : m.env.scopes.slotOf ⟨level, name⟩ = some slot :=
    harguments.follows.keepsBound (hbound _) ⟨level, name⟩ slot (ScopeStack.slotOf_level hvariable)
      hvariable
  have hnames (later : Machine) (hlater : begun.Continues host m.env.scopes.depth later)
      (x : Variable) (hx : Names m function args slot x) :
      later.env.scopes.slotOf x = some slot :=
    hlater.follows.keepsBound (hbound _) x slot hx.level (hbegins.slotOf hx)
  have hsolid : begun.env.memory.Solid slot :=
    hbegins.stores.persists.solid (hsound slot (ScopeStack.slotOf_mem hnamed))
  have hdone : begun.Continues host m.env.scopes.depth done :=
    body_continues host budget held _ function.body _ begun
  refine ⟨⟨level, hvariable, hnamed⟩, ?_, ?_, hdone, ?_, ?_⟩
  · intro later hlater x hx
    have hslot := hnames later hlater x hx
    refine ⟨?_, resolve_seen hslot⟩
    unfold Machine.valueOf
    rw [hslot]
    rfl
  · intro here hhere op source ctx result there hassign
    have hsolid := (hhere.stores hstores).persists.solid hsolid
    have hthere := hhere.assigned op (.reference slot) source ctx
    rw [hassign] at hthere
    rcases Eval.assignSource_written op (.reference slot) source ctx here with
      ⟨fault, hfailed⟩ | ⟨found, value, hfound, hwritten⟩
    · rw [hfailed] at hassign
      cases hassign
    · cases hfound
      rw [hwritten] at hassign
      cases hassign
      have hload : (here.env.memory.write slot value).load slot = value :=
        Memory.load_write_self hsolid.bound value
      exact ⟨hthere, value, rfl, hload, fun hspared =>
        (hspared.load (hsolid.write slot value)).trans hload⟩
  · intro x hx
    have hslot := hnames done hdone x (.outer hx)
    have hleft : done.KeepsBound x.level (left m done) :=
      .truncate (Nat.lt_succ_of_le (ScopeStack.slotOf_level hx)) _
    have hkept := hleft x slot (Nat.le_refl _) hslot
    show (after.env.scopes.slotOf x).map after.env.load = some (done.env.load slot)
    have hafter : after = left m done := hbegins.after
    rw [hafter, hkept]
    rfl
  · rcases Memory.History.last (hdone.stores hstores) slot with
      hspared | ⟨here, target, value, hearlier, hinside, hspared⟩
    · exact .inl ⟨hspared, hspared.load hsolid⟩
    · have hhere := (hearlier.persists.solid hsolid).write target value
      have hload := hspared.load hhere
      refine .inr ⟨here, target, value, hearlier, hinside, hspared, hload, ?_⟩
      rintro rfl
      exact hload.trans
        (Memory.load_write_self (hearlier.persists.solid hsolid).bound value)

/-- Counts the variable it is given up by one. -/
def countingUp : UserFunction :=
  { id := 100
    name := "countUp"
    params := [⟨.int, "total", true⟩]
    returnType := .void
    body := [⟨1, "total += 1"⟩]
    file := "lib.eve"
    line := 1
    isMethod := false }

/-- An interpreter after `int n = 5`. -/
def withNumber : Machine :=
  (Eval.evalExpr (.binary .assign (.declare .int "n") (.literal (.int 5))) (context .none 1 [])
    (.initial .standard (.shelf ⟨[]⟩))).2

/-- In `countUp(n)` the variable `n` is left with what the body makes of its parameter. -/
theorem number_counted_up :
    let ctx := context .none 1 []
    let begun := (bindCall none (readyAll withNumber (countingUp.params.zip [.reference ⟨0⟩])) ctx
      (entered "lib.eve" withNumber)).2
    let done := (ctx.runBody [] countingUp.body true begun).2
    let after := (Eval.callUser countingUp none [.reference ⟨0⟩] ctx withNumber).2
    withNumber.env.Sound ∧ Eval.resolve withNumber "n" = .reference ⟨0⟩ ∧
      Begins withNumber countingUp none [.reference ⟨0⟩] ctx begun ∧
      done.valueOf ⟨1, "total"⟩ = some (done.env.load ⟨0⟩) ∧
      after.valueOf ⟨0, "n"⟩ = some (done.env.load ⟨0⟩) := by
  intro ctx begun done after
  have hreached : Machine.Reached 1 .empty [] withNumber := .evaluated (.start _ _) _ 1 []
  have hsound := hreached.inOrder.upholds.sound
  have hgiven : Eval.resolve withNumber "n" = .reference ⟨0⟩ := rfl
  have hbegins : Begins withNumber countingUp none [.reference ⟨0⟩] ctx begun :=
    ⟨rfl, Prod.ext rfl rfl⟩
  obtain ⟨-, hmoments, -, hdone, hafter, -⟩ := parameters_shared Host.none_keepsBound
    (Host.none_keeps Stores.lasting) hsound hgiven .now hbegins
  have htotal : Names withNumber countingUp [.reference ⟨0⟩] ⟨0⟩ ⟨1, "total"⟩ :=
    @Names.parameter withNumber countingUp [.reference ⟨0⟩] ⟨0⟩ ⟨.int, "total", true⟩
      List.mem_cons_self rfl
  exact ⟨hsound, hgiven, hbegins, (hmoments done hdone _ htotal).1, hafter ⟨0, "n"⟩ rfl⟩

end Session

end BuildScript
