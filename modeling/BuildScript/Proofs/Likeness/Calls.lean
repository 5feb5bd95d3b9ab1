import BuildScript.Proofs.Likeness.Evaluation

/-!
Calls made side by side, and with them the evaluation of any expression.
-/

namespace BuildScript.Eval.Coupling

variable {R : Sight → Machine → Machine → Prop} {ctx ctx' : Context} {s : Sight}
  {operand operand' : Operand} {args args' : List Operand} {v v' : Value}

theorem allAkin_cons (ho : operand.Akin s operand') (hargs : Operand.AllAkin s args args') :
    Operand.AllAkin s (operand :: args) (operand' :: args') := by
  simp only [Operand.AllAkin, List.map_cons, List.cons.injEq]
  exact ⟨ho, hargs⟩

theorem anchors_akin (ho : operand.Akin s operand') : operand.anchors = operand'.anchors := by
  rw [← @Operand.anchors_recast s.left, ho, Operand.anchors_recast]

theorem allAnchors_akin (hargs : Operand.AllAkin s args args') :
    args.flatMap Operand.anchors = args'.flatMap Operand.anchors := by
  have hsame := congrArg (List.flatMap Operand.anchors) hargs
  simpa [List.flatMap_map, Function.comp_def] using hsame

theorem length_akin (hargs : Operand.AllAkin s args args') : args.length = args'.length := by
  have hsame := congrArg List.length hargs
  simpa using hsame

/-- What follows the check is run only if there may be another call. -/
theorem checkCallDepth (h : Coupling R ctx ctx') {α β : Type} {A : Sight → α → β → Prop}
    {f : Unit → Eval α} {g : Unit → Eval β}
    (hf : Deepens R → Couples R ctx ctx' s A (f ()) (g ())) :
    Couples R ctx ctx' s A (Eval.checkCallDepth >>= f) (Eval.checkCallDepth >>= g) := by
  intro held m m' hR
  have hdepth : m.callDepth = m'.callDepth :=
    (h.same hR).observe Machine.callDepth fun _ _ => rfl
  have hoptions : m.options = m'.options := (h.same hR).observe Machine.options fun _ _ => rfl
  by_cases hdeep : m.callDepth ≥ m.options.maxCallDepth
  · have hdeep' : m'.callDepth ≥ m'.options.maxCallDepth := hdepth ▸ hoptions ▸ hdeep
    rw [andThen_apply, andThen_apply, checkCallDepth_apply, checkCallDepth_apply, if_pos hdeep,
      if_pos hdeep', hoptions]
    exact ⟨s, le_rfl, .error _, hR⟩
  · have hdeep' : ¬m'.callDepth ≥ m'.options.maxCallDepth := hdepth ▸ hoptions ▸ hdeep
    rw [andThen_apply, andThen_apply, checkCallDepth_apply, checkCallDepth_apply, if_neg hdeep,
      if_neg hdeep']
    exact hf ⟨s, m, m', hR, Nat.lt_of_not_ge hdeep⟩ held m m' hR

/-- Arguments are made ready in order. -/
theorem bindAll (h : Coupling R ctx ctx') (function : String) (position : Nat)
    (params : List Parameter) (hargs : Operand.AllAkin s args args') :
    Couples R ctx ctx' s Bound.AllAkin (bindAll function position (params.zip args))
      (bindAll function position (params.zip args')) := by
  induction params generalizing position args args' s with
  | nil => exact .pure rfl
  | cons param params ih =>
    cases args with
    | nil =>
      cases args' with
      | nil => exact .pure rfl
      | cons arg' rest' => cases hargs
    | cons arg rest =>
      cases args' with
      | nil => cases hargs
      | cons arg' rest' =>
        obtain ⟨harg, hrest⟩ := List.cons.inj hargs
        have hrest : Operand.AllAkin s rest rest' := hrest
        refine (h.require harg).bind fun {t arg arg'} hst harg => ?_
        apply h.read
        intro m m' hm
        have hbound : (boundFor m function position param arg).map (Bound.recast t.left) =
            (boundFor m' function position param arg').map (Bound.recast t.right) := by
          rw [← boundFor_recast, ← boundFor_recast, hm, harg]
        refine Couples.checking hbound fun {b b'} hb => ?_
        refine (ih (position + 1) (hrest.later hst)).bind fun htu hothers => .pure ?_
        simp only [Bound.AllAkin, List.map_cons, List.cons.injEq, Prod.mk.injEq, true_and]
        exact ⟨Bound.Akin.later hb htu, hothers⟩

/-- What a body gives back is checked alike. -/
theorem checkReturn_akin {function function' : UserFunction} (hfunction : function.Akin s function')
    {flow flow' : Flow} (hflow : GivesAkin s flow flow') :
    (checkReturn function (givenBack flow)).map (Value.recast s.left) =
      (checkReturn function' (givenBack flow')).map (Value.recast s.right) := by
  rw [← checkReturn_recast, ← checkReturn_recast, hfunction, hflow]

theorem callUser (h : Coupling R ctx ctx') {function function' : UserFunction}
    (hfunction : function.Akin s function') (receiver : Option ObjectId)
    (hargs : Operand.AllAkin s args args') :
    Couples R ctx ctx' s Operand.Akin (callUser function receiver args)
      (callUser function' receiver args') := by
  have hsame := hfunction
  obtain ⟨id, name, params, type, body, file, line, isMethod⟩ := function
  obtain ⟨id', name', params', type', body', file', line', isMethod'⟩ := function'
  simp only [UserFunction.Akin, UserFunction.recast, UserFunction.mk.injEq] at hsame
  obtain ⟨rfl, rfl, rfl, rfl, hbody, rfl, -, rfl⟩ := hsame
  refine h.checkCallDepth fun hdeep => ?_
  dsimp only
  rw [length_akin hargs]
  split
  · exact .raise_bind _ _ _
  · refine (h.bindAll name 1 params hargs).bind fun hst hbound => ?_
    refine (h.frame hdeep (Sight.body_later hbody hst) hbound).bind fun htu hflow => ?_
    have hlater := hfunction.later (hst.trans htu)
    refine Couples.checking (checkReturn_akin hlater hflow) fun hv => .pure ?_
    exact congrArg (Operand.temporary · false) hv

theorem callProcedure (h : Coupling R ctx ctx') {procedure procedure' : Procedure}
    (hprocedure : procedure.Akin s procedure') (hargs : Operand.AllAkin s args args') :
    Couples R ctx ctx' s Operand.Akin (callProcedure procedure args)
      (callProcedure procedure' args') := by
  obtain ⟨id, name, body, file, line⟩ := procedure
  obtain ⟨id', name', body', file', line'⟩ := procedure'
  simp only [Procedure.Akin, Procedure.recast, Procedure.mk.injEq] at hprocedure
  obtain ⟨rfl, rfl, hbody, rfl, -⟩ := hprocedure
  have hempty : args.isEmpty = args'.isEmpty := by
    have hsame := congrArg List.isEmpty hargs
    simpa using hsame
  refine h.checkCallDepth fun hdeep => ?_
  dsimp only
  rw [hempty, length_akin hargs]
  split
  · exact .raise_bind _ _ _
  · have hframe := @h.frame s file body body' none [] [] hdeep hbody rfl
    refine Couples.bind hframe fun {u flow flow'} _ hback => ?_
    unfold GivesAkin at hback
    cases hgiven : givenBack flow with
    | none =>
      cases hgiven' : givenBack flow' with
      | none => exact .pure rfl
      | some v' => simp [hgiven, hgiven'] at hback
    | some v =>
      cases hgiven' : givenBack flow' with
      | none => simp [hgiven, hgiven'] at hback
      | some v' =>
        rw [hgiven, hgiven'] at hback
        have hv : v.Akin u v' := Option.some.inj hback
        dsimp only
        rw [type_akin hv]
        exact .raise _

theorem callNative (h : Coupling R ctx ctx') (native : NativeFunction)
    (receiver : Option ObjectId) (hargs : Operand.AllAkin s args args') :
    Couples R ctx ctx' s Operand.Akin (callNative native receiver args)
      (callNative native receiver args') := by
  have hrun (anchors : List Anchor) {args args' : List Operand}
      (hargs : Operand.AllAkin s args args') :
      Couples R ctx ctx' s Operand.Akin (runNative native anchors args)
        (runNative native anchors args') := by
    unfold runNative
    split
    · apply h.read
      intro m m' hm
      have hvalues : (args.map (Operand.recast s.left)).map (valueIn (m.recast s.left)) =
          (args'.map (Operand.recast s.right)).map (valueIn (m'.recast s.right)) := by
        rw [hargs, hm]
      have hsize : (sizeOf (args.map (valueIn m))).map (Value.recast s.left) =
          (sizeOf (args'.map (valueIn m'))).map (Value.recast s.right) := by
        rw [← sizeOf_recast, ← sizeOf_recast]
        congr 1
        simpa [List.map_map, Function.comp_def] using hvalues
      exact Couples.checking hsize fun hv => .pure (congrArg (Operand.temporary · false) hv)
    · refine ((h.callHost _ hargs).holding anchors).bind fun hst hv => .pure ?_
      exact congrArg (Operand.temporary · false) hv
  have hcounted {args args' : List Operand} (receiver : Option ObjectId)
      (hargs : Operand.AllAkin s args args') :
      Couples R ctx ctx' s Operand.Akin
        (do
          if args.length != native.arity then
            raise (.argumentCount native.name native.arity args.length)
          runNative native ((receiver.map Anchor.object).toList ++ args.flatMap Operand.anchors) args)
        (do
          if args'.length != native.arity then
            raise (.argumentCount native.name native.arity args'.length)
          runNative native ((receiver.map Anchor.object).toList ++ args'.flatMap Operand.anchors)
            args') := by
    rw [length_akin hargs, allAnchors_akin hargs]
    dsimp only
    split
    · exact .raise_bind _ _ _
    · exact hrun _ hargs
  apply h.read
  intro m m' hm
  cases receiver with
  | none => exact hcounted none hargs
  | some id =>
    have hobject : (m.env.memory.loadInstance id).Akin s (m'.env.memory.loadInstance id) := by
      have hmemory : m.env.memory.recast s.left = m'.env.memory.recast s.right :=
        congrArg Environment.memory (env_akin hm)
      rw [Value.Akin, ← Memory.loadInstance_recast, ← Memory.loadInstance_recast, hmemory]
    exact hcounted (some id) (allAkin_cons (congrArg (Operand.temporary · false) hobject) hargs)

theorem callFunction (h : Coupling R ctx ctx') {callable callable' : Callable}
    (hcallable : callable.Akin s callable') (receiver : Option ObjectId)
    (hargs : Operand.AllAkin s args args') :
    Couples R ctx ctx' s Operand.Akin (callFunction callable receiver args)
      (callFunction callable' receiver args') := by
  cases callable with
  | builtin b =>
    cases callable' with
    | builtin b' =>
      cases hcallable
      exact h.callBuiltin b hargs
    | _ => cases hcallable
  | native n =>
    cases callable' with
    | native n' =>
      cases hcallable
      exact h.callNative n receiver hargs
    | _ => cases hcallable
  | user f =>
    cases callable' with
    | user f' => exact h.callUser (Callable.user.inj hcallable) receiver hargs
    | _ => cases hcallable

theorem callValue (h : Coupling R ctx ctx') (hv : v.Akin s v')
    (hargs : Operand.AllAkin s args args') :
    Couples R ctx ctx' s Operand.Akin (callValue v args) (callValue v' args') := by
  have htype := type_akin hv
  cases kindred hv with
  | scalar a hfunction hprocedure hclass =>
    cases a with
    | function c r => exact absurd rfl (hfunction c r)
    | procedure p => exact absurd rfl (hprocedure p)
    | _ => exact .raise _
  | @function c c' hcallable receiver =>
    cases receiver with
    | none => exact h.callFunction hcallable none hargs
    | some id =>
      apply h.read
      intro m m' hm
      have halive (held : List Anchor) : isAlive m held id = isAlive m' held id := by
        rw [← @isAlive_recast s.left, hm, isAlive_recast]
      have hheld : Couples R ctx ctx' s Same held held := fun _ _ _ hR => ⟨s, le_rfl, .ok rfl, hR⟩
      refine hheld.bind fun {_ anchors anchors'} hst heq => ?_
      subst heq
      rw [halive, allAnchors_akin hargs]
      split
      · exact h.callFunction (Callable.Akin.later hcallable hst) (some id) (hargs.later hst)
      · exact .raise _
  | procedure hprocedure => exact h.callProcedure hprocedure hargs
  | _ => exact .raise _

theorem callObject (h : Coupling R ctx ctx') (ho : operand.Akin s operand') (id : ObjectId)
    (name : String) {args args' : Eval (List Operand)}
    (hargs : ∀ {t}, Couples R ctx ctx' t Operand.AllAkin args args') :
    Couples R ctx ctx' s Operand.Akin (callObject operand id name args)
      (callObject operand' id name args') := by
  refine (h.instantiated id name).bind fun {_ object object'} hst hobject => ?_
  obtain ⟨hfield, hmethod⟩ := member_akin hobject name
  dsimp only
  rw [hfield, className_akin hobject, anchors_akin ho]
  cases hfound : lookupName name object.methods with
  | none =>
    cases hfound' : lookupName name object'.methods with
    | some method' => simp [hfound, hfound'] at hmethod
    | none =>
      cases lookupName name object'.fields with
      | none => exact .raise _
      | some slot =>
        refine (h.valueOf rfl).bind fun _ hv => ?_
        exact (hargs.bind fun htu hargs => h.callValue (hv.later htu) hargs).holding _
  | some method =>
    cases hfound' : lookupName name object'.methods with
    | none => simp [hfound, hfound'] at hmethod
    | some method' =>
      rw [hfound, hfound'] at hmethod
      refine (hargs.holding _).bind fun htu hargs => ?_
      have hmethod := Callable.Akin.later (Option.some.inj hmethod) htu
      have hcall := h.callFunction hmethod (some id) hargs
      cases Operand.kindred ho with
      | reference slot => exact hcall.holding _
      | temporary hv isLiteral => exact hcall.holding _

theorem callMember (h : Coupling R ctx ctx') (ho : operand.Akin s operand')
    (name : String) {args args' : Eval (List Operand)}
    (hargs : ∀ {t}, Couples R ctx ctx' t Operand.AllAkin args args') :
    Couples R ctx ctx' s Operand.Akin (callMember operand name args)
      (callMember operand' name args') := by
  refine (h.objectOf ho).bind fun {_ found found'} hst heq => ?_
  subst heq
  have ho := ho.later hst
  cases found with
  | some id => exact h.callObject ho id name hargs
  | none =>
    apply h.read
    intro m m' hm
    have hmethod := builtinMethod?_akin hm (typeIn m' operand') name
    dsimp only
    rw [typeIn_akin hm ho, anchors_akin ho]
    generalize builtinMethod? m (typeIn m' operand') name = method at hmethod ⊢
    generalize builtinMethod? m' (typeIn m' operand') name = method' at hmethod ⊢
    cases method with
    | none =>
      cases method' with
      | none => exact .raise _
      | some _ => cases hmethod
    | some _ =>
      cases method' with
      | none => cases hmethod
      | some _ =>
        refine (hargs.holding _).bind fun htu hargs => ?_
        have hmethod := Callable.Akin.later (Option.some.inj hmethod) htu
        exact h.callFunction hmethod none (allAkin_cons (ho.later htu) hargs)

/-! Expressions. -/

variable {left left' right right' x y : Eval Operand}

theorem asBool_akin (hv : v.Akin s v') : v.asBool = v'.asBool := by
  rw [← @Value.asBool_recast s.left, hv, Value.asBool_recast]

theorem logicWith (h : Coupling R ctx ctx') (op : Operator)
    (hleft : Couples R ctx ctx' s Operand.Akin left left')
    (hright : ∀ {t}, Couples R ctx ctx' t Operand.Akin right right') :
    Couples R ctx ctx' s Operand.Akin (logicWith op left right)
      (logicWith op left' right') := by
  refine (h.valueBy hleft).bind fun _ hv => ?_
  refine Couples.checkingSame (asBool_akin hv) fun first => ?_
  split
  · exact .pure rfl
  · refine (h.valueBy hright).bind fun _ hw => ?_
    exact Couples.checkingSame (asBool_akin hw) fun second => .pure rfl

theorem binaryWith (h : Coupling R ctx ctx') (op : Operator)
    (hleft : Couples R ctx ctx' s Operand.Akin left left')
    (hright : ∀ {t}, Couples R ctx ctx' t Operand.Akin right right') :
    Couples R ctx ctx' s Operand.Akin (binaryWith op left right)
      (binaryWith op left' right') := by
  refine (h.valueBy hleft).bind fun _ hv => (h.valueBy hright).bind fun hst hw => ?_
  refine Couples.checking (binary_akin (hv.later hst) hw) fun hresult => .pure ?_
  exact congrArg (Operand.temporary · false) hresult

theorem unaryWith (h : Coupling R ctx ctx') (op : Operator)
    (hx : Couples R ctx ctx' s Operand.Akin x y) :
    Couples R ctx ctx' s Operand.Akin (unaryWith op x) (unaryWith op y) := by
  refine (h.valueBy hx).bind fun {t v v'} _ hv => ?_
  have hunary : (Operation.unary op v).map (Value.recast t.left) =
      (Operation.unary op v').map (Value.recast t.right) := by
    rw [← Operation.unary_recast, ← Operation.unary_recast, hv]
  refine Couples.checking hunary fun hresult => .pure ?_
  exact congrArg (Operand.temporary · false) hresult

theorem castWith (h : Coupling R ctx ctx') (type : DataType)
    {args args' : Eval (List Operand)}
    (hargs : Couples R ctx ctx' s Operand.AllAkin args args') :
    Couples R ctx ctx' s Operand.Akin (castWith type args) (castWith type args') := by
  unfold Eval.castWith
  split
  · exact .raise _
  · exact hargs.bind fun hst hargs => h.callBuiltin _ hargs

mutual

/-- The evaluation of an expression is coupled with itself. -/
theorem evalExpr (h : Coupling R ctx ctx') {s : Sight} : (expr : Expr) →
    Couples R ctx ctx' s Operand.Akin (evalExpr expr) (evalExpr expr)
  | .literal value => by
    unfold Eval.evalExpr
    cases value <;> exact .pure rfl
  | .identifier name => by
    unfold Eval.evalExpr
    exact h.resolved name
  | .ownMember name => by
    unfold Eval.evalExpr
    exact h.receiver.bind fun _ ho => h.memberOf ho name
  | .declare type name => by
    unfold Eval.evalExpr
    exact h.declare type name rfl
  | .arrayLiteral elements => by
    unfold Eval.evalExpr
    refine (h.evalValues elements).bind fun {t values values'} _ hvalues => ?_
    have harray : (arrayOf values).map (Value.recast t.left) =
        (arrayOf values').map (Value.recast t.right) := by
      rw [← arrayOf_recast, ← arrayOf_recast, hvalues]
    refine Couples.checking harray fun hv => .pure ?_
    exact congrArg (Operand.temporary · false) hv
  | .unary op operand => by
    unfold Eval.evalExpr
    exact h.unaryWith op (h.evalExpr operand)
  | .binary op left right => by
    have hleft {t : Sight} : Couples R ctx ctx' t Operand.Akin (Eval.evalExpr left)
        (Eval.evalExpr left) := h.evalExpr left
    have hright {t : Sight} : Couples R ctx ctx' t Operand.Akin (Eval.evalExpr right)
        (Eval.evalExpr right) := h.evalExpr right
    unfold Eval.evalExpr
    split
    · exact h.indexWith hleft hright
    · split
      · exact h.logicWith op hleft hright
      · split
        · split
          · exact h.declareWith _ _ hright
          · exact h.assignWith _ hleft hright
        · exact h.binaryWith op hleft hright
  | .member object name => by
    unfold Eval.evalExpr
    refine (h.evalExpr object).bind fun _ ho => ?_
    exact (h.require ho).bind fun _ ho => h.memberOf ho name
  | .call callee arguments => by
    have hargs {t : Sight} : Couples R ctx ctx' t Operand.AllAkin (Eval.evalArguments arguments)
        (Eval.evalArguments arguments) := h.evalArguments arguments
    unfold Eval.evalExpr
    split
    · rename_i object name
      refine (h.evalExpr object).bind fun _ ho => ?_
      exact (h.require ho).bind fun _ ho => h.callMember ho name hargs
    · exact h.receiver.bind fun _ ho => h.callMember ho _ hargs
    · refine (h.valueBy (h.evalExpr callee)).bind fun _ hv => ?_
      exact hargs.bind fun hst hargs => h.callValue (hv.later hst) hargs
  | .cast type arguments => by
    unfold Eval.evalExpr
    exact h.castWith type (h.evalArguments arguments)

theorem evalValues (h : Coupling R ctx ctx') {s : Sight} : (exprs : List Expr) →
    Couples R ctx ctx' s Value.AllAkin (evalValues exprs) (evalValues exprs)
  | [] => by
    unfold Eval.evalValues
    exact .pure rfl
  | expr :: rest => by
    unfold Eval.evalValues
    refine (h.valueBy (h.evalExpr expr)).bind fun _ hv => ?_
    refine (h.evalValues rest).bind fun hst hvalues => .pure ?_
    simp only [Value.AllAkin, List.map_cons, List.cons.injEq]
    exact ⟨hv.later hst, hvalues⟩

theorem evalArguments (h : Coupling R ctx ctx') {s : Sight} : (exprs : List Expr) →
    Couples R ctx ctx' s Operand.AllAkin (evalArguments exprs) (evalArguments exprs)
  | [] => by
    unfold Eval.evalArguments
    exact .pure rfl
  | expr :: rest => by
    unfold Eval.evalArguments
    refine (h.evalExpr expr).bind fun {_ o o'} _ ho => ?_
    rw [anchors_akin ho]
    exact ((h.evalArguments rest).holding _).bind fun hst hargs =>
      .pure (allAkin_cons (ho.later hst) hargs)

end

theorem evalValue (h : Coupling R ctx ctx') (expr : Expr) :
    Couples R ctx ctx' s Value.Akin (evalValue expr) (evalValue expr) :=
  h.valueBy (h.evalExpr expr)

end BuildScript.Eval.Coupling
