import Mathlib
import BuildScript.Proofs.Isolation.Lines

/-!
Calls from two places. A call leads to the same wherever it is made, but for one thing: what a
caller has bound stays in existence during the call, so a bound method that is called meanwhile may
find its object in one case and not in the other.
-/

namespace BuildScript

/-- The machine as it is where the caller stands: among the scopes, on the line and with the last
`if` of the caller. -/
def Machine.calledFrom (m caller : Machine) : Machine :=
  { m.over caller.env.scopes.inner with line := caller.line, lastIf := caller.lastIf }

/-- One machine as it is where two callers stand. -/
inductive Callers (caller caller' : Machine) : Machine → Machine → Prop
  | mk (m : Machine) : Callers caller caller' (m.calledFrom caller) (m.calledFrom caller')

theorem Machine.skipping_calledFrom (m caller : Machine) :
    (m.calledFrom caller).env.scopes.current.skipping = caller.env.scopes.current.skipping := by
  show (ScopeStack.current ⟨caller.env.scopes.inner, m.env.scopes.global⟩).skipping = _
  unfold ScopeStack.current
  cases caller.env.scopes.inner <;> rfl

/-- What a call begins with of its caller is that it is skipped, and the line. -/
theorem Machine.entered_calledFrom (m caller : Machine) (file : String) :
    Eval.entered file (m.calledFrom caller) =
      ({ m with file, lastIf := none, callDepth := m.callDepth + 1 }.onLine caller.line).over
        ({ Scope.call with skipping := caller.env.scopes.current.skipping } ::
          caller.env.scopes.inner) := by
  rw [← m.skipping_calledFrom]
  rfl

theorem ScopeStack.truncate_below (above below : List Scope) (global : Bindings) :
    ScopeStack.truncate ⟨above ++ below, global⟩ (below.length + 1) = ⟨below, global⟩ := by
  have hdrop : ScopeStack.depth ⟨above ++ below, global⟩ - max (below.length + 1) 1 =
      above.length := by
    unfold ScopeStack.depth
    rw [List.length_append]
    omega
  unfold ScopeStack.truncate
  rw [hdrop, List.drop_left]

/-- Whoever called, afterwards the machine is back with the caller. -/
theorem Machine.left_calledFrom (caller m n : Machine) (above : List Scope) :
    Eval.left (m.calledFrom caller) (n.over (above ++ caller.env.scopes.inner)) =
      (Eval.left m n).calledFrom caller := by
  have htruncate := ScopeStack.truncate_below above caller.env.scopes.inner n.env.scopes.global
  unfold Eval.left
  rw [show (n.over (above ++ caller.env.scopes.inner)).env.scopes.truncate
    (m.calledFrom caller).env.scopes.depth = ⟨caller.env.scopes.inner, n.env.scopes.global⟩ from
      htruncate]
  rfl

/-- A call of something the script declared: a function, a method of an object, a procedure, or a
method that was bound to an object before. -/
inductive ScriptCall
  | function (called : UserFunction) (args : List Operand)
  | method (called : UserFunction) (receiver : ObjectId) (args : List Operand)
  | procedure (called : Procedure) (args : List Operand)
  | boundMethod (called : UserFunction) (receiver : ObjectId) (args : List Operand)

namespace ScriptCall

open Eval (Isolated)

def run : ScriptCall → Eval Operand
  | .function called args => Eval.callUser called none args
  | .method called receiver args => Eval.callUser called (some receiver) args
  | .procedure called args => Eval.callProcedure called args
  | .boundMethod called receiver args =>
    Eval.callValue (.atom (.function (.user called) (some receiver))) args

variable {host : Host} {caller caller' : Machine}

/-- The body of a call runs on twins, wherever the call was made. -/
theorem frame_isolated (hhost : host.Isolated)
    (hskipping : caller.env.scopes.current.skipping = caller'.env.scopes.current.skipping)
    (budget : Nat) (held : List Anchor) (file : String) (receiver : Option ObjectId)
    (bound : List (String × Eval.Bound)) (body : List Text.SourceLine) :
    Isolated (Callers caller caller') caller.env.scopes.inner caller'.env.scopes.inner
      (Session.context host budget held)
      (Eval.inFrame file (Eval.callBody receiver bound body)) := by
  rintro first second hshares - - ⟨m⟩
  let begun : Machine := { m with file, lastIf := none, callDepth := m.callDepth + 1 }
  have htwins : Twins (fun _ _ => True) caller.env.scopes.inner caller'.env.scopes.inner
      (Eval.entered file (m.calledFrom caller)) (Eval.entered file (m.calledFrom caller')) := by
    rw [m.entered_calledFrom, m.entered_calledFrom, ← hskipping]
    exact @Twins.mk (fun _ _ => True) _ _ (begun.onLine caller.line) [_] _ (.call rfl) trivial
  have hcontext := Session.context_isolates hhost caller.env.scopes.inner
    caller'.env.scopes.inner budget held
  obtain ⟨hresult, hafter⟩ :=
    hcontext.callBody (fun _ => trivial) receiver bound body hshares htwins
  rw [Eval.inFrame_apply, Eval.inFrame_apply]
  refine ⟨hresult, ?_⟩
  dsimp only
  generalize (Eval.callBody receiver bound body _ (Eval.entered file (m.calledFrom caller))).2 =
    after at hafter
  generalize (Eval.callBody receiver bound body _ (Eval.entered file (m.calledFrom caller'))).2 =
    after' at hafter
  obtain @⟨n, above, line, -, -⟩ := hafter
  rw [Machine.left_calledFrom, Machine.left_calledFrom]
  exact .mk (Eval.left m n)

/-- While both callers keep the same in existence, a call is the same from either place. -/
theorem isolated_of_shares (hhost : host.Isolated)
    (hskipping : caller.env.scopes.current.skipping = caller'.env.scopes.current.skipping)
    (call : ScriptCall) (budget : Nat) (held : List Anchor) :
    Isolated (Callers caller caller') caller.env.scopes.inner caller'.env.scopes.inner
      (Session.context host budget held) call.run := by
  have hcomposes : Eval.Composes (Isolated (Callers caller caller') caller.env.scopes.inner
      caller'.env.scopes.inner (Session.context host budget held)) :=
    Isolated.composes fun _ _ hm => by cases hm; rfl
  have hframe := frame_isolated hhost hskipping budget held
  cases call with
  | function called args => exact hcomposes.callUser hframe called none args
  | method called receiver args => exact hcomposes.callUser hframe called (some receiver) args
  | procedure called args => exact hcomposes.callProcedure hframe called args
  | boundMethod called receiver args =>
    have halive : Isolated (Callers caller caller') caller.env.scopes.inner
        caller'.env.scopes.inner (Session.context host budget held) (do
          return Eval.isAlive (← Eval.machine) (args.flatMap Operand.anchors ++ (← Eval.held))
            receiver) := by
      rintro first second hshares - - ⟨m⟩
      have hsame := @Eval.isAlive_congr (m.calledFrom caller) (m.calledFrom caller') _ _ rfl rfl
        (hshares.append (args.flatMap Operand.anchors)) receiver
      exact ⟨congrArg Except.ok hsame, .mk m⟩
    have hcalled (alive : Bool) : Isolated (Callers caller caller') caller.env.scopes.inner
        caller'.env.scopes.inner (Session.context host budget held)
        (if alive then Eval.callUser called (some receiver) args
          else Eval.raise .danglingReceiver) := by
      split
      · exact hcomposes.callUser hframe called (some receiver) args
      · exact hcomposes.raise _
    have hbound := hcomposes.bind halive hcalled
    exact hbound

/-- It makes no difference to the call that what these scopes have bound is kept in existence as
well. -/
def Indifferent (call : ScriptCall) (host : Host) (budget : Nat) (held : List Anchor) (m : Machine)
    (scopes : List Scope) : Prop :=
  call.run (Session.context host budget (keptBy scopes ++ held)) m =
    call.run (Session.context host budget held) m

/-- A call does the same from two places of which neither is skipped, among whatever scopes, on
whatever line and after whatever `if`: it has the same result or fault and leaves the same machine,
but for the scopes, the line and the last `if` of the caller, which stay. What only one caller keeps
in existence must make no difference to the call from the other. -/
theorem isolated_from_caller (hhost : host.Isolated) (call : ScriptCall) (budget : Nat)
    (held : List Anchor) (m caller caller' : Machine)
    (hskipping : caller.env.scopes.current.skipping = false)
    (hskipping' : caller'.env.scopes.current.skipping = false)
    (hkept : call.Indifferent host budget held (m.calledFrom caller) caller'.env.scopes.inner)
    (hkept' : call.Indifferent host budget held (m.calledFrom caller') caller.env.scopes.inner) :
    ∃ (result : Except Fault Operand) (after : Machine),
      call.run (Session.context host budget held) (m.calledFrom caller) =
        (result, after.calledFrom caller) ∧
      call.run (Session.context host budget held) (m.calledFrom caller') =
        (result, after.calledFrom caller') := by
  have hshares : Shares caller.env.scopes.inner caller'.env.scopes.inner
      (keptBy caller'.env.scopes.inner ++ held) (keptBy caller.env.scopes.inner ++ held) := by
    intro anchor
    simp only [List.mem_append]
    grind
  have hboth := isolated_of_shares hhost (hskipping.trans hskipping'.symm) call budget held hshares
    (.mk m)
  rw [Session.context_held, Session.context_held, hkept, hkept'] at hboth
  generalize call.run _ (m.calledFrom caller) = first at hboth
  generalize call.run _ (m.calledFrom caller') = second at hboth
  obtain ⟨result, after⟩ := first
  obtain ⟨result', after'⟩ := second
  obtain ⟨rfl, hafter⟩ := hboth
  obtain ⟨after⟩ := hafter
  exact ⟨_, after, rfl, rfl⟩

/-- A global `x` is 4, and a variable of a block is 1. -/
def withNumbers : Machine :=
  let declared := (Eval.declare .int "x" (some (.int 4)) (Session.context .none 1 [])
    (.initial .standard (.shelf ⟨[]⟩))).2
  { declared with env := { declared.env with memory := (declared.env.memory.alloc (.int 1)).2 } }

/-- In the block, where the name stands for the other variable, after an `if` and on line 7. -/
def inBlock : Machine :=
  { withNumbers.over [{ Scope.block with bindings := [("x", ⟨1⟩)] }] with
    line := 7
    lastIf := some true }

/-- A function that prints what it sees of the name. -/
def printer : ScriptCall :=
  .function ⟨100, "show", [], .void, [⟨1, "println(x)"⟩], "", 1, false⟩ []

theorem printer_isolated :
    ∃ after : Machine, after.events = [.printed "4\n"] ∧
      printer.run (Session.context .none 1 []) (withNumbers.calledFrom inBlock) =
        (.ok .nothing, after.calledFrom inBlock) ∧
      printer.run (Session.context .none 1 []) (withNumbers.calledFrom withNumbers) =
        (.ok .nothing, after.calledFrom withNumbers) := by
  have hkept : printer.Indifferent .none 1 [] (withNumbers.calledFrom inBlock)
      withNumbers.env.scopes.inner := rfl
  have hkept' : printer.Indifferent .none 1 [] (withNumbers.calledFrom withNumbers)
      inBlock.env.scopes.inner := by
    unfold Indifferent
    cbv
  obtain ⟨result, after, hblock, hglobal⟩ := isolated_from_caller Host.none_isolated printer 1 []
    withNumbers inBlock withNumbers rfl rfl hkept hkept'
  have hresult : (printer.run (Session.context .none 1 []) (withNumbers.calledFrom inBlock)).1 =
      .ok .nothing := by cbv
  have hevents : (printer.run (Session.context .none 1 [])
    (withNumbers.calledFrom inBlock)).2.events =
      [.printed "4\n"] := by cbv
  rw [hblock] at hresult hevents
  obtain rfl : result = .ok .nothing := hresult
  exact ⟨after, hevents, hblock, hglobal⟩

/-- A method that prints. -/
def alive : UserFunction := ⟨100, "m", [], .void, [⟨1, "println(1)"⟩], "", 1, true⟩

/-- An object of a class with the method is in `o`, the method bound to it is in `g`, and it has
just been called, so that the object is in a slot of its own as well. -/
def methodBegun : Machine :=
  let known : Machine := .initial { Options.standard with errorFormat := "" } (.shelf ⟨[]⟩)
  let known := { known with classes := known.classes ++ [⟨101, "A", [], [("m", .user alive)]⟩] }
  let declared := (Eval.declare (.object "A") "o" none (Session.context .none 1 []) known).2
  let bound := (Eval.define "g" (.atom (.function (.user alive) (some 0)))
    (Session.context .none 1 []) declared).2
  { bound with
    callDepth := 1
    env := { bound.env with memory := (bound.env.memory.push (.object 0)).2 } }

/-- In the method, where `this` is the object. -/
def inMethod : Machine :=
  methodBegun.over [{ Scope.call with bindings := [("this", ⟨2⟩)] }]

/-- In a function, which binds nothing. -/
def inFunction : Machine := methodBegun.over [Scope.call]

/-- A procedure that gives `o` another object and calls `g`. -/
def replacer : Procedure :=
  ⟨102, "f", [⟨1, "A fresh"⟩, ⟨2, "o = fresh"⟩, ⟨3, "g()"⟩], "", 1⟩

theorem replacer_script : Script.ofLines replacer.body =
    [⟨1, .ok [.expression (.declare (.object "A") "fresh")]⟩,
      ⟨2, .ok [.expression (.binary .assign (.identifier "o") (.identifier "fresh"))]⟩,
      ⟨3, .ok [.expression (.call (.identifier "g") [])]⟩] := by cbv

/-- A procedure reports what its body does. -/
theorem run_procedure_errors {called : Procedure} {m : Machine} {budget : Nat}
    (hdepth : m.callDepth < m.options.maxCallDepth) :
    ((procedure called []).run (Session.context .none (budget + 1) []) m).2.errorCount =
      (Run.runLines called.body true (Session.context .none budget [])
        (Eval.entered called.file m)).2.errorCount := by
  have hcheck : Eval.checkCallDepth (Session.context .none (budget + 1) []) m = (.ok (), m) := by
    rw [Eval.checkCallDepth_apply, if_neg (Nat.not_le.mpr hdepth)]
  have hrun : (procedure called []).run (Session.context .none (budget + 1) []) m =
      (Eval.inFrame called.file (Eval.runBody called.body true) >>= Eval.procedureResult called)
        (Session.context .none (budget + 1) []) m := Eval.andThen_apply_ok hcheck
  rw [hrun, Eval.andThen_apply, Eval.inFrame_apply]
  show _ = (Eval.runBody called.body true (Session.context .none (budget + 1) [])
    (Eval.entered called.file m)).2.errorCount
  generalize Eval.runBody called.body true _ _ = x
  obtain ⟨result, after⟩ := x
  cases result with
  | error fault => rfl
  | ok flow =>
    dsimp only [Eval.procedureResult]
    cases Eval.givenBack flow <;> rfl

/-- Without the condition on what the callers keep, the call prints in the one case and not in the
other, where the object of the bound method is gone. -/
theorem receiver_kept_by_caller :
    ¬∀ (host : Host), host.Isolated → ∀ (call : ScriptCall) (budget : Nat) (held : List Anchor)
      (m caller caller' : Machine), caller.env.scopes.current.skipping = false →
      caller'.env.scopes.current.skipping = false → ∃ (result : Except Fault Operand)
        (after : Machine),
        call.run (Session.context host budget held) (m.calledFrom caller) =
          (result, after.calledFrom caller) ∧
        call.run (Session.context host budget held) (m.calledFrom caller') =
          (result, after.calledFrom caller') := by
  intro hclaim
  obtain ⟨result, after, hmethod, hfunction⟩ :=
    hclaim .none Host.none_isolated (.procedure replacer []) 2 [] methodBegun inMethod inFunction
      rfl rfl
  have hprints : ((procedure replacer []).run (Session.context .none 2 [])
      (methodBegun.calledFrom inMethod)).2.errorCount = 0 := by cbv
  have hreports : ((procedure replacer []).run (Session.context .none 2 [])
      (methodBegun.calledFrom inFunction)).2.errorCount = 1 := by
    rw [run_procedure_errors (by decide), Run.runLines_apply, replacer_script]
    rfl
  rw [hmethod] at hprints
  rw [hfunction] at hreports
  cases hprints.symm.trans hreports

end ScriptCall

end BuildScript
