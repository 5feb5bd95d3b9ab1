import BuildScript.Proofs.Evaluation.Relations

/-!
What an evaluation gives when it succeeds: its result together with the machine it leaves, from what
held of the machine it found. Calls give values and never references.
-/

namespace BuildScript.Eval

variable {α β : Type} {ctx : Context} {P Q : Machine → Prop}

/-- If the evaluation succeeds on a machine of the first kind, its result and the machine after it
are of the second kind. What it holds on to meanwhile plays no part. -/
def Leads (ctx : Context) (P : Machine → Prop) (x : Eval α) (R : α → Machine → Prop) : Prop :=
  ∀ (held : List Anchor) (m : Machine) (a : α) (m' : Machine),
    P m → x { ctx with held } m = (.ok a, m') → R a m'

namespace Leads

variable {R : α → Machine → Prop} {S : β → Machine → Prop}

theorem pure {a : α} (h : ∀ m, P m → R a m) : Leads ctx P (pure a) R := by
  intro held m b m' hm hrun
  cases hrun
  exact h m hm

theorem fail (fault : Fault) : Leads ctx P (Eval.fail fault : Eval α) R := by
  intro held m b m' hm hrun
  cases hrun

theorem raise (error : EvalError) : Leads ctx P (Eval.raise error : Eval α) R := fail _

theorem bind {x : Eval α} {f : α → Eval β} (hx : Leads ctx P x R)
    (hf : ∀ a, Leads ctx (R a) (f a) S) : Leads ctx P (x >>= f) S := by
  intro held m b m' hm hrun
  obtain ⟨a, between, hfirst, hrest⟩ := andThen_ok hrun
  exact hf a held between b m' (hx held m a between hm hfirst) hrest

theorem read {f : Machine → Eval β} (hf : ∀ m, P m → Leads ctx (· = m) (f m) S) :
    Leads ctx P (machine >>= f) S := by
  intro held m b m' hm hrun
  exact hf m hm held m b m' rfl hrun

theorem holding (anchors : List Anchor) {x : Eval α} (hx : Leads ctx P x R) :
    Leads ctx P (holding anchors x) R := fun held => hx (anchors ++ held)

theorem weaken {x : Eval α} {R' : α → Machine → Prop} (hx : Leads ctx P x R)
    (h : ∀ a m, R a m → R' a m) : Leads ctx P x R' :=
  fun held m a m' hm hrun => h a m' (hx held m a m' hm hrun)

theorem strengthen {x : Eval α} (hx : Leads ctx P x R) (h : ∀ m, Q m → P m) : Leads ctx Q x R :=
  fun held m a m' hm hrun => hx held m a m' (h m hm) hrun

/-- What an evaluation keeps it has kept when it succeeds. -/
theorem of_keeps {related : Machine → Machine → Prop} {x : Eval α} (hx : Keeps related ctx x)
    (h : ∀ m m', related m m' → P m → Q m') : Leads ctx P x fun _ => Q := by
  intro held m a m' hm hrun
  have hrelated := hx held m
  rw [hrun] at hrelated
  exact h m m' hrelated hm

theorem ofExcept (result : Except EvalError α) (h : ∀ a m, result = .ok a → P m → R a m) :
    Leads ctx P (Eval.ofExcept result) R := by
  intro held m a m' hm hrun
  cases result with
  | error e => cases hrun
  | ok b =>
    cases hrun
    exact h a m rfl hm

end Leads

/-- The evaluation never gives a reference. -/
def Temporary (x : Eval Operand) : Prop :=
  ∀ (ctx : Context) (m : Machine) (operand : Operand) (m' : Machine),
    x ctx m = (.ok operand, m') → operand.anchors = []

namespace Temporary

theorem ofValue (value : Value) : Temporary (pure (.ofValue value)) := by
  intro ctx m operand m' hrun
  cases hrun
  rfl

theorem raise (error : EvalError) : Temporary (Eval.raise error) := by
  intro ctx m operand m' hrun
  cases hrun

theorem bind {x : Eval α} {f : α → Eval Operand} (hf : ∀ a, Temporary (f a)) :
    Temporary (x >>= f) := by
  intro ctx m operand m' hrun
  obtain ⟨a, between, -, hrest⟩ := andThen_ok hrun
  exact hf a ctx between operand m' hrest

theorem holding (anchors : List Anchor) {x : Eval Operand} (h : Temporary x) :
    Temporary (holding anchors x) := fun _ m operand m' hrun => h _ m operand m' hrun

theorem callBuiltin (builtin : Builtin) (args : List Operand) :
    Temporary (callBuiltin builtin args) := by
  unfold Eval.callBuiltin
  split
  · exact bind fun value => ofValue value
  · exact raise _

theorem callNative (native : NativeFunction) (receiver : Option ObjectId) (args : List Operand) :
    Temporary (callNative native receiver args) := by
  have hrest (anchors : List Anchor) (args : List Operand) :
      Temporary (runNative native anchors args) := by
    unfold runNative
    split
    · exact bind fun m => bind fun value => ofValue value
    · exact bind fun value => ofValue value
  refine bind fun m => ?_
  cases receiver with
  | some id =>
    dsimp only
    split
    · exact bind fun _ => hrest _ _
    · exact hrest _ _
  | none =>
    dsimp only
    split
    · exact bind fun _ => hrest _ _
    · exact hrest _ _

theorem callUser (function : UserFunction) (receiver : Option ObjectId) (args : List Operand) :
    Temporary (callUser function receiver args) := by
  have hrest : Temporary (do
      let bound ← Eval.bindAll function.name 1 (function.params.zip args)
      let flow ← inFrame function.file (callBody receiver bound function.body)
      return .ofValue (← Eval.ofExcept (checkReturn function (givenBack flow)))) :=
    bind fun bound => bind fun flow => bind fun value => ofValue value
  refine bind fun _ => ?_
  dsimp only
  split
  · exact bind fun _ => hrest
  · exact hrest

theorem callProcedure (procedure : Procedure) (args : List Operand) :
    Temporary (callProcedure procedure args) := by
  have hrest : Temporary (inFrame procedure.file (callBody none [] procedure.body) >>=
      procedureResult procedure) := by
    refine bind fun flow => ?_
    unfold procedureResult
    split
    · exact raise _
    · exact ofValue _
  refine bind fun _ => ?_
  dsimp only
  split
  · exact bind fun _ => hrest
  · exact hrest

theorem callFunction (callable : Callable) (receiver : Option ObjectId) (args : List Operand) :
    Temporary (callFunction callable receiver args) := by
  cases callable with
  | builtin builtin => exact callBuiltin builtin args
  | native native => exact callNative native receiver args
  | user function => exact callUser function receiver args

theorem callValue (function : Value) (args : List Operand) :
    Temporary (callValue function args) := by
  unfold Eval.callValue
  split
  · exact callFunction _ _ _
  · refine bind fun m => bind fun held => ?_
    split
    · exact callFunction _ _ _
    · exact raise _
  · exact callProcedure _ _
  · exact raise _

theorem callObject (target : Operand) (id : ObjectId) (name : String)
    (args : Eval (List Operand)) : Temporary (callObject target id name args) := by
  refine bind fun object => ?_
  dsimp only
  split
  · exact bind fun args => holding _ (callFunction _ _ _)
  · exact bind fun function => holding _ (bind fun args => callValue function args)
  · exact raise _

theorem callMember (target : Operand) (name : String) (args : Eval (List Operand)) :
    Temporary (callMember target name args) := by
  refine bind fun id => ?_
  cases id with
  | some id => exact callObject target id name args
  | none =>
    refine bind fun m => ?_
    dsimp only
    split
    · exact raise _
    · exact bind fun args => callFunction _ _ _

theorem castWith (type : DataType) (args : Eval (List Operand)) :
    Temporary (castWith type args) := by
  unfold Eval.castWith
  split
  · exact raise _
  · exact bind fun args => callBuiltin _ args

theorem logicWith (op : Operator) (left right : Eval Operand) :
    Temporary (logicWith op left right) := by
  refine bind fun value => bind fun first => ?_
  split
  · exact ofValue _
  · exact bind fun value => bind fun second => ofValue _

theorem binaryWith (op : Operator) (left right : Eval Operand) :
    Temporary (binaryWith op left right) :=
  bind fun _ => bind fun _ => bind fun value => ofValue value

theorem unaryWith (op : Operator) (operand : Eval Operand) : Temporary (unaryWith op operand) :=
  bind fun _ => bind fun value => ofValue value

end Temporary

end BuildScript.Eval
