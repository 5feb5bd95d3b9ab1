import BuildScript.Proofs.Run.Sharing
import BuildScript.Proofs.Storage.Assignments

/-!
An assignment that fails changes nothing. It can fail while its target is found, while its value is
computed and combined with the current one, in the conversion to the type of the slot, and when a
declared name turns out to be taken; all of this comes before the one write it makes. What its
indices and its value do themselves is another matter: expressions without declarations, assignments
and calls do nothing.
-/

namespace BuildScript

/-- Every slot holds what it held and every name stands for what it stood for. There may be more
slots, since temporaries are given places to get at their parts. -/
structure Machine.Untouched (m m' : Machine) : Prop where
  scopes : m'.env.scopes = m.env.scopes
  memory : m.env.memory.Grows m'.env.memory

mutual

/-- The expression only asks for something: nothing in it declares, assigns or calls. -/
def Expr.isPlain : Expr → Bool
  | .literal _ | .identifier _ | .ownMember _ => true
  | .declare _ _ | .call _ _ => false
  | .arrayLiteral elements => Expr.arePlain elements
  | .unary _ operand => operand.isPlain
  | .binary op left right => !op.isAssignment && left.isPlain && right.isPlain
  | .member object _ => object.isPlain
  | .cast _ arguments => Expr.arePlain arguments

def Expr.arePlain : List Expr → Bool
  | [] => true
  | expr :: rest => expr.isPlain && Expr.arePlain rest

end

namespace Eval

open Machine (Untouched)

variable {α β : Type} {ctx : Context} {m m' : Machine} {op : Operator} {target value : Expr}

namespace Reads

variable {T : ∀ ⦃α : Type⦄, Eval α → Prop}

mutual

/-- What holds of everything that only asks holds of plain expressions. -/
theorem plain (h : Reads T) : (expr : Expr) → expr.isPlain = true → T (evalExpr expr)
  | .literal _, _ => by
    unfold evalExpr
    exact h.pure _
  | .identifier name, _ => by
    unfold evalExpr
    exact h.resolved name
  | .ownMember name, _ => by
    unfold evalExpr
    exact h.bind h.receiver fun target => h.memberOf target name
  | .declare _ _, hplain => by
    unfold Expr.isPlain at hplain
    cases hplain
  | .arrayLiteral elements, hplain => by
    unfold Expr.isPlain at hplain
    unfold evalExpr
    refine h.bind (h.plainValues elements hplain) fun values => ?_
    exact h.bind (h.ofExcept _) fun value => h.pure _
  | .unary op operand, hplain => by
    unfold Expr.isPlain at hplain
    unfold evalExpr
    exact h.unaryWith op (h.plain operand hplain)
  | .binary op left right, hplain => by
    unfold Expr.isPlain at hplain
    simp only [Bool.and_eq_true, Bool.not_eq_true'] at hplain
    obtain ⟨⟨hop, hleft⟩, hright⟩ := hplain
    have hleft := h.plain left hleft
    have hright := h.plain right hright
    unfold evalExpr
    rw [hop]
    split
    · exact h.indexWith hleft hright
    · split
      · exact h.logicWith op hleft hright
      · exact h.binaryWith op hleft hright
  | .member object name, hplain => by
    unfold Expr.isPlain at hplain
    unfold evalExpr
    exact h.memberWith (h.plain object hplain) name
  | .call _ _, hplain => by
    unfold Expr.isPlain at hplain
    cases hplain
  | .cast type arguments, hplain => by
    unfold Expr.isPlain at hplain
    unfold evalExpr
    exact h.castWith type (h.plainArguments arguments hplain)

theorem plainValues (h : Reads T) :
    (exprs : List Expr) → Expr.arePlain exprs = true → T (evalValues exprs)
  | [], _ => by
    unfold evalValues
    exact h.pure _
  | expr :: rest, hplain => by
    unfold Expr.arePlain at hplain
    obtain ⟨hfirst, hrest⟩ := (Bool.and_eq_true _ _).mp hplain
    unfold evalValues
    refine h.bind (h.valueBy (h.plain expr hfirst)) fun value => ?_
    exact h.bind (h.plainValues rest hrest) fun values => h.pure _

theorem plainArguments (h : Reads T) :
    (exprs : List Expr) → Expr.arePlain exprs = true → T (evalArguments exprs)
  | [], _ => by
    unfold evalArguments
    exact h.pure _
  | expr :: rest, hplain => by
    unfold Expr.arePlain at hplain
    obtain ⟨hfirst, hrest⟩ := (Bool.and_eq_true _ _).mp hplain
    unfold evalArguments
    refine h.bind (h.plain expr hfirst) fun operand => ?_
    exact h.bind (h.holding _ (h.plainArguments rest hrest)) fun operands => h.pure _

end

end Reads

theorem untouched_chains : Chains Untouched where
  refl _ := ⟨rfl, .refl _⟩
  trans h h' := ⟨h'.scopes.trans h.scopes, h.memory.trans h'.memory⟩

theorem untouched_reads : Reads (Keeps Untouched ctx) where
  toComposes := untouched_chains.composes
  toSees := untouched_chains.sees
  place value _ m := ⟨rfl, (Memory.place_planted m.env.memory value).toGrows⟩

/-- The evaluation has no side effect on variables where it is made. -/
def Idle (x : Eval α) (ctx : Context) (m : Machine) : Prop := m.Untouched (x ctx m).2

theorem idle_of_plain {expr : Expr} (h : expr.isPlain = true) (ctx : Context) (m : Machine) :
    Idle (evalExpr expr) ctx m := (untouched_reads.plain expr h).apply m

/-- What follows is made only if the first evaluation gave a result. -/
theorem Idle.andThen {x : Eval α} {f : α → Eval β} (hx : Idle x ctx m)
    (hf : ∀ a between, x ctx m = (.ok a, between) → Idle (f a) ctx between) :
    Idle (x >>= f) ctx m := by
  unfold Idle at hx ⊢
  rw [andThen_apply]
  cases hrun : x ctx m with
  | mk result between =>
    rw [hrun] at hx
    cases result with
    | ok a => exact untouched_chains.trans hx (hf a between hrun)
    | error fault => exact hx

theorem idle_require (operand : Operand) : Idle (require operand) ctx m :=
  Keeps.apply (untouched_chains.composes.require operand) m

theorem Idle.valueBy {x : Eval Operand} (h : Idle x ctx m) : Idle (valueBy x) ctx m := by
  refine h.andThen fun operand between _ => ?_
  refine (idle_require operand).andThen fun required after _ => ?_
  exact Keeps.apply (untouched_chains.composes.valueOf required) after

/-- What is made while a container or a target is held. -/
def IdleHolding (container expr : Expr) (ctx : Context) (m : Machine) : Prop :=
  ∀ operand between, evalExpr container ctx m = (.ok operand, between) →
    Idle (evalExpr expr) { ctx with held := operand.anchors ++ ctx.held } between

/-- A variable, or an element or a field of what is found so. No index on the way has a side
effect. -/
inductive Target (ctx : Context) (m : Machine) : Expr → Prop
  | named (name : String) : Target ctx m (.identifier name)
  | ownField (name : String) : Target ctx m (.ownMember name)
  | field {object : Expr} (h : Target ctx m object) (name : String) :
    Target ctx m (.member object name)
  | element {container index : Expr} (h : Target ctx m container)
    (hindex : IdleHolding container index ctx m) :
    Target ctx m (.binary .arrayAccess container index)
  /-- Whatever else has no side effect, whether or not it can be assigned to. -/
  | other {expr : Expr} (h : Idle (evalExpr expr) ctx m) : Target ctx m expr

/-- Finding what is assigned to changes nothing. -/
theorem Target.idle (h : Target ctx m target) : Idle (evalExpr target) ctx m := by
  induction h with
  | named name => exact idle_of_plain rfl ctx m
  | ownField name => exact idle_of_plain rfl ctx m
  | field h name ih =>
    rw [evalExpr]
    refine ih.andThen fun operand between _ => ?_
    refine (idle_require operand).andThen fun required after _ => ?_
    exact Keeps.apply (untouched_reads.memberOf required name) after
  | element h hindex ih =>
    rw [evalExpr]
    · refine ih.andThen fun operand between hrun => ?_
      refine (idle_require operand).andThen fun required after hrequire => ?_
      obtain ⟨rfl, rfl⟩ := require_inv hrequire
      refine Idle.andThen (hindex _ _ hrun).valueBy fun position _ _ => ?_
      refine Idle.andThen (Keeps.apply (untouched_chains.composes.ofExcept _) _) fun i last _ => ?_
      exact Keeps.apply (untouched_reads.element required i) last
    · intro _ _ hassign
      cases hassign
  | other h => exact h

/-- An assignment, plain or compound, or a declaration with an initial value. What it is made of has
no side effects: neither the indices of the target nor the value. -/
inductive Assignment (ctx : Context) (m : Machine) : Operator → Expr → Expr → Prop
  | declaring (type : DataType) (name : String) {value : Expr}
    (hvalue : Idle (evalExpr value) ctx m) : Assignment ctx m .assign (.declare type name) value
  | storing {op : Operator} {target value : Expr} (hop : op.isAssignment = true)
    (hform : ∀ type name, target ≠ .declare type name) (htarget : Target ctx m target)
    (hvalue : IdleHolding target value ctx m) : Assignment ctx m op target value

/-- The evaluation has no side effect if it fails. -/
def FailsIdle (x : Eval α) (ctx : Context) (m : Machine) : Prop :=
  ∀ fault m', x ctx m = (.error fault, m') → m.Untouched m'

theorem Idle.andThen_failsIdle {x : Eval α} {f : α → Eval β} (hx : Idle x ctx m)
    (hf : ∀ a between, x ctx m = (.ok a, between) → FailsIdle (f a) ctx between) :
    FailsIdle (x >>= f) ctx m := by
  intro fault m' hrun
  unfold Idle at hx
  rw [andThen_apply] at hrun
  cases hfirst : x ctx m with
  | mk result between =>
    rw [hfirst] at hx hrun
    cases result with
    | ok a => exact untouched_chains.trans hx (hf a between hfirst fault m' hrun)
    | error e =>
      cases hrun
      exact hx

/-- A declaration that fails leaves no name behind. -/
theorem declare_failsIdle (type : DataType) (name : String) (initial : Value) :
    FailsIdle (declare type name (some initial)) ctx m := by
  have hconvert : Idle (Eval.ofExcept (initial.convert type)) ctx m := untouched_chains.refl m
  refine hconvert.andThen_failsIdle fun converted between _ fault m' hrun => ?_
  dsimp only at hrun
  rw [andThen_apply, define_apply] at hrun
  cases hdefine : between.env.define name converted with
  | error e =>
    rw [hdefine] at hrun
    cases hrun
    exact untouched_chains.refl _
  | ok result =>
    rw [hdefine] at hrun
    cases hrun

/-- An assignment writes only when nothing can go wrong any more. -/
theorem assignSource_failsIdle (op : Operator) (target : Operand) (source : Value) :
    FailsIdle (assignSource op target source) ctx m := by
  intro fault m' hrun
  rcases assignSource_written op target source ctx m with ⟨_, hfailed⟩ | ⟨_, _, -, hwritten⟩
  · rw [hfailed] at hrun
    cases hrun
    exact untouched_chains.refl _
  · rw [hwritten] at hrun
    cases hrun

theorem declareWith_failsIdle {initial : Eval Operand} (hinitial : Idle initial ctx m)
    (type : DataType) (name : String) : FailsIdle (declareWith type name initial) ctx m :=
  hinitial.valueBy.andThen_failsIdle fun found _ _ => declare_failsIdle type name found

theorem assignWith_failsIdle {x y : Eval Operand} (hx : Idle x ctx m)
    (hy : ∀ operand between, x ctx m = (.ok operand, between) →
      Idle y { ctx with held := operand.anchors ++ ctx.held } between) (op : Operator) :
    FailsIdle (assignWith op x y) ctx m := by
  refine hx.andThen_failsIdle fun operand between hrun => ?_
  have hrest : FailsIdle (holding operand.anchors (valueBy y) >>= assignSource op operand)
      ctx between :=
    Idle.andThen_failsIdle (hy operand between hrun).valueBy fun source _ _ =>
      assignSource_failsIdle op operand source
  cases operand with
  | reference slot => exact hrest
  | temporary found isLiteral =>
    refine (idle_require _).andThen_failsIdle fun required after hrequire => ?_
    obtain ⟨rfl, rfl⟩ := require_inv hrequire
    exact hrest

/-- Whatever an assignment fails of, it leaves every slot, every name and the scopes as they were,
if the indices in its target and its value have no side effects of their own. -/
theorem Assignment.failed_untouched (h : Assignment ctx m op target value) {fault : Fault}
    (hrun : evalExpr (.binary op target value) ctx m = (.error fault, m')) : m.Untouched m' := by
  cases h with
  | declaring type name hvalue =>
    have hform : evalExpr (.binary .assign (.declare type name) value) =
        declareWith type name (evalExpr value) := by
      conv_lhs => unfold evalExpr
      rfl
    rw [hform] at hrun
    exact declareWith_failsIdle hvalue type name fault m' hrun
  | storing hop hform htarget hvalue =>
    rw [evalExpr_assignment hop hform] at hrun
    exact assignWith_failsIdle htarget.idle hvalue op fault m' hrun

/-- `a[1] += 2147483647` overflows where `a` is `[1, 2]`. -/
theorem overflowing_element_untouched :
    let ctx := Session.context .none 1 []
    let target := Expr.binary .arrayAccess (.identifier "a") (.literal (.int 1))
    let value := Expr.literal (.int 2147483647)
    let after := (evalExpr (.binary .addAssign target value) ctx Machine.numbers).2
    Assignment ctx Machine.numbers .addAssign target value ∧
      evalExpr (.binary .addAssign target value) ctx Machine.numbers =
        (.error (.eval .overflow), after) ∧ Machine.numbers.Untouched after := by
  intro ctx target value after
  have hassignment : Assignment ctx Machine.numbers .addAssign target value := by
    refine .storing rfl (fun _ _ h => Expr.noConfusion h) ?_ fun _ _ _ => idle_of_plain rfl _ _
    exact .element (.named "a") fun _ _ _ => idle_of_plain rfl _ _
  have hrun : evalExpr (.binary .addAssign target value) ctx Machine.numbers =
      (.error (.eval .overflow), after) := rfl
  exact ⟨hassignment, hrun, hassignment.failed_untouched hrun⟩

end Eval

end BuildScript
