import BuildScript.Proofs.Evaluation.Names
import BuildScript.Proofs.Run.Sharing

/-!
Compound assignment. `x += e` reads `x` once the other side was evaluated, `x = x + e` before. All
else is the same in both: the target is found first, is held on to meanwhile, and takes the value
that the operator gives in the way of any assignment. They differ only if the other side changes the
value of `x`.
-/

namespace BuildScript

namespace Operation

variable {op base : Operator} {left right result : Value}

theorem checked_isVoid {number : Option Int32} (h : checked number = .ok result) :
    result.isVoid = false := by
  cases number <;> cases h
  rfl

theorem onIntegers_isVoid {a b : Int32} (h : onIntegers op a b = .ok result) :
    result.isVoid = false := by
  unfold onIntegers at h
  split at h
  · exact checked_isVoid h
  · exact checked_isVoid h
  · exact checked_isVoid h
  · split at h
    · cases h
    · exact checked_isVoid h
  · split at h
    · cases h
    · exact checked_isVoid h
  · split at h
    · exact checked_isVoid h
    · cases h
      rfl
  · cases h

theorem onSingles_isVoid {a b : Float32} (h : onSingles op a b = .ok result) :
    result.isVoid = false := by
  unfold onSingles at h
  split at h <;> cases h <;> rfl

theorem arithmetic_isVoid (h : arithmetic op left right = .ok result) : result.isVoid = false := by
  unfold arithmetic at h
  split at h
  · exact onIntegers_isVoid h
  · exact onSingles_isVoid h
  · cases h

theorem joinText_isVoid (h : joinText left right = some result) : result.isVoid = false := by
  unfold joinText at h
  split at h
  · cases h
    rfl
  · split at h <;> cases h
    rfl

theorem append?_isVoid {element : DataType} {items : List Value} {item : Value}
    (h : append? element items item = some (.ok result)) : result.isVoid = false := by
  unfold append? at h
  split at h
  · cases hconvert : item.convert element with
    | error e =>
      rw [hconvert] at h
      cases h
    | ok converted =>
      rw [hconvert] at h
      cases h
      rfl
  · cases h

theorem addToContainer_isVoid (h : addToContainer left right = .ok result) :
    result.isVoid = false := by
  unfold addToContainer at h
  split at h
  · split at h <;> cases h <;> rfl
  · split at h
    · rename_i happend
      subst h
      exact append?_isVoid happend
    · split at h
      · unfold concatArrays at h
        split at h
        · cases h
          rfl
        · split at h <;> cases h
          rfl
      · split at h <;> cases h
        rfl
  · cases h

/-- What a compound operator stores is a value. -/
theorem binary_isVoid (hop : op.compoundBase? = some base)
    (h : binary base left right = .ok result) : result.isVoid = false := by
  have hadd (h : add left right = .ok result) : result.isVoid = false := by
    unfold add at h
    split at h
    · rename_i hjoin
      cases h
      exact joinText_isVoid hjoin
    · split at h
      · exact addToContainer_isVoid h
      · exact addToContainer_isVoid h
      · exact arithmetic_isVoid h
  cases op <;> cases hop
  · exact hadd h
  all_goals exact arithmetic_isVoid h

end Operation

namespace Eval

variable {op base : Operator} {ctx : Context} {m after : Machine} {name : String} {slot : Slot}
  {expr : Expr}

theorem evalExpr_combined (hop : op.compoundBase? = some base) (left right : Expr) :
    evalExpr (.binary base left right) = binaryWith base (evalExpr left) (evalExpr right) := by
  conv_lhs => unfold evalExpr
  cases op <;> cases hop <;> rfl

/-- An operation whose first operand is a variable takes the value that this has before the second
one is evaluated. -/
theorem binaryWith_variable (h : resolve m name = .reference slot)
    (hvalue : voidIn? m (.reference slot) = none) (base : Operator) (right : Eval Operand) :
    binaryWith base (evalExpr (.identifier name)) right ctx m = (do
      let b ← valueBy right
      return .ofValue (← Eval.ofExcept (Operation.binary base (m.env.load slot) b)) :
        Eval Operand) ctx m := by
  unfold binaryWith
  rw [andThen_apply_ok (valueBy_ok (identifier_apply h ctx) hvalue)]
  rfl

theorem voidIn?_ofValue {value : Value} (h : value.isVoid = false) :
    voidIn? m (.ofValue value) = none := by
  cases value with
  | atom a =>
    cases a with
    | void name => cases h
    | _ => rfl
  | _ => rfl

/-- An operand of an assignment that is combined from two values. -/
theorem valueBy_combined (hop : op.compoundBase? = some base) (left right : Value) :
    valueBy (do return .ofValue (← Eval.ofExcept (Operation.binary base left right))) ctx m =
      ((Operation.binary base left right).mapError .eval, m) := by
  cases hresult : Operation.binary base left right with
  | error e => rfl
  | ok result => exact valueBy_ok rfl (voidIn?_ofValue (Operation.binary_isVoid hop hresult))

/-- Evaluations whose operand is evaluated first have it in both of them. -/
theorem valueBy_after {α : Type} (x : Eval α) (f : α → Eval Operand) :
    valueBy (x >>= f) = (x >>= fun a => valueBy (f a)) := by
  funext ctx m
  unfold valueBy
  simp only [andThen_apply]
  rcases x ctx m with ⟨_ | _, _⟩ <;> rfl

/-- Combining the value that the target has had all along, and storing it. -/
theorem assignSource_combined (hop : op.compoundBase? = some base) {current : Value}
    (hcurrent : m.env.load slot = current) (source : Value) :
    assignSource op (.reference slot) source ctx m =
      (valueBy (do return .ofValue (← Eval.ofExcept (Operation.binary base current source))) >>=
        assignSource .assign (.reference slot)) ctx m := by
  subst hcurrent
  rw [andThen_apply, valueBy_combined hop]
  unfold assignSource
  rw [hop]
  dsimp only
  have hread : valueOf (.reference slot) ctx m = (.ok (m.env.load slot), m) := rfl
  rw [andThen_apply_ok hread]
  cases Operation.binary base (m.env.load slot) source with
  | error e => rfl
  | ok result => rfl

end Eval

/-- A slot has the value it had before: nothing in it was written or, however that came about, it has
the same value again. -/
def Machine.Leaves (slot : Slot) (m after : Machine) : Prop :=
  m.env.Sound ∧ Memory.Spares slot m.env.memory after.env.memory ∨
    after.env.load slot = m.env.load slot

theorem Machine.Leaves.load {slot : Slot} {m after : Machine} (h : m.Leaves slot after)
    (hbound : slot ∈ m.env.scopes.slots) : after.env.load slot = m.env.load slot := by
  rcases h with ⟨hsound, hspared⟩ | hload
  · exact hspared.load (hsound slot hbound)
  · exact hload

namespace Session

open Eval (resolve voidIn? valueBy evalExpr holding)

variable {op base : Operator} {ctx : Context} {m : Machine} {name : String} {slot : Slot}
  {expr : Expr}

/-- A compound assignment is the assignment of what its operator gives. Whatever the other side does,
calls and files among it, and however it ends: unless it changes the value of the variable, `x += e`
and `x = x + e` give the same result or fail alike, and leave the same machine. -/
theorem compound_assigns (hop : op.compoundBase? = some base)
    (hname : resolve m name = .reference slot) (hvalue : voidIn? m (.reference slot) = none)
    (hleaves : m.Leaves slot (holding [.slot slot] (valueBy (evalExpr expr)) ctx m).2) :
    evalExpr (.binary op (.identifier name) expr) ctx m =
      evalExpr (.binary .assign (.identifier name) (.binary base (.identifier name) expr)) ctx m := by
  have hassignment : op.isAssignment = true := by
    unfold Operator.isAssignment
    rw [hop]
    exact Bool.or_true _
  obtain ⟨level, hslot⟩ := resolve_variable hname
  have hload := hleaves.load (ScopeStack.slotOf_mem hslot)
  rw [Eval.assignment_apply hname hassignment, Eval.assignment_apply hname rfl,
    Eval.evalExpr_combined hop]
  let inside : Context := { ctx with held := [.slot slot] ++ ctx.held }
  have hcombined : valueBy (Eval.binaryWith base (evalExpr (.identifier name)) (evalExpr expr))
      inside m = (valueBy (evalExpr expr) >>= fun source => valueBy (do
        return .ofValue (← Eval.ofExcept (Operation.binary base (m.env.load slot) source))))
          inside m := by
    rw [Eval.valueBy_congr (Eval.binaryWith_variable hname hvalue base _), Eval.valueBy_after]
  rw [Eval.andThen_apply, Eval.andThen_apply, Eval.holding_apply, Eval.holding_apply, hcombined,
    Eval.andThen_apply]
  rw [Eval.holding_apply] at hload
  cases hrun : valueBy (evalExpr expr) inside m with
  | mk result after =>
    rw [hrun] at hload
    cases result with
    | error fault => rfl
    | ok source =>
      dsimp only
      rw [Eval.assignSource_combined hop hload, Eval.andThen_apply, Eval.valueBy_combined hop,
        Eval.valueBy_combined hop]

/-- `n += (bool b = true)`: the other side declares a variable, which leaves `n` as it is. -/
theorem number_added_to :
    let ctx := context .none 1 []
    let expr : Expr := .binary .assign (.declare .bool "b") (.literal (.bool true))
    withNumber.Leaves ⟨0⟩ (holding [.slot ⟨0⟩] (valueBy (evalExpr expr)) ctx withNumber).2 ∧
      evalExpr (.binary .addAssign (.identifier "n") expr) ctx withNumber =
        evalExpr (.binary .assign (.identifier "n") (.binary .add (.identifier "n") expr)) ctx
          withNumber := by
  intro ctx expr
  have hreached : Machine.Reached 1 .empty [] withNumber := .evaluated (.start _ _) _ 1 []
  have hgrows := (Memory.place_planted withNumber.env.memory (.bool true)).push.toGrows
  have hleaves : withNumber.Leaves ⟨0⟩
      (holding [.slot ⟨0⟩] (valueBy (evalExpr expr)) ctx withNumber).2 :=
    .inl ⟨hreached.inOrder.upholds.sound, .stored .none hgrows⟩
  exact ⟨hleaves, compound_assigns rfl rfl rfl hleaves⟩

end Session

end BuildScript
