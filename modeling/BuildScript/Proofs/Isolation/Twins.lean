import BuildScript.Proofs.Isolation.Parallel

/-!
The body of a call on two machines that differ below its scope. A search for a name never passes
that scope, so every evaluation does the same on both.
-/

namespace BuildScript

/-- Scopes of which the outermost is that of a call. -/
inductive Framed : List Scope → Prop
  | call {scope : Scope} (h : scope.isolated = true) : Framed [scope]
  | above (scope : Scope) {rest : List Scope} (h : Framed rest) : Framed (scope :: rest)

namespace Framed

variable {above : List Scope}

theorem lookupFrom (h : Framed above) (below : List Scope) (global : Bindings) (name : String) :
    ScopeStack.lookupFrom global name (above ++ below) =
      ScopeStack.lookupFrom global name above := by
  induction h with
  | call h =>
    simp only [List.cons_append, List.nil_append, ScopeStack.lookupFrom, h, if_true]
  | above scope h ih =>
    simp only [List.cons_append, ScopeStack.lookupFrom, ih]

/-- There is an innermost scope, and what it binds plays no part. -/
theorem innermost (h : Framed above) : ∃ scope rest, above = scope :: rest ∧
    ∀ scope' : Scope, scope'.isolated = scope.isolated → Framed (scope' :: rest) := by
  cases h with
  | call h => exact ⟨_, [], rfl, fun scope' h' => .call (h'.trans h)⟩
  | above scope h => exact ⟨scope, _, rfl, fun scope' _ => .above scope' h⟩

theorem drop (h : Framed above) {count : Nat} (hcount : count < above.length) :
    Framed (above.drop count) := by
  induction h generalizing count with
  | call h =>
    obtain rfl : count = 0 := Nat.lt_one_iff.mp hcount
    exact .call h
  | above scope h ih =>
    cases count with
    | zero => exact .above scope h
    | succ count => exact ih (Nat.lt_of_succ_lt_succ hcount)

/-- Where the scopes above are cut off, those below stay as they are. -/
theorem truncate (h : Framed above) {count : Nat} (hcount : 0 < count) :
    ∃ above', Framed above' ∧ ∀ (below : List Scope) (global : Bindings),
      ScopeStack.truncate ⟨above ++ below, global⟩ (count + below.length + 1) =
        ⟨above' ++ below, global⟩ := by
  have hpositive : 0 < above.length := by
    cases h <;> simp only [List.length_cons, Nat.zero_lt_succ]
  refine ⟨above.drop (above.length - count), h.drop (by omega), fun below global => ?_⟩
  have hdrop : ScopeStack.depth ⟨above ++ below, global⟩ - max (count + below.length + 1) 1 =
      above.length - count := by
    unfold ScopeStack.depth
    rw [List.length_append]
    omega
  unfold ScopeStack.truncate
  rw [hdrop, List.drop_append_of_le_length (by omega)]

end Framed

namespace Machine

variable {m : Machine} {scope : Scope} {rest : List Scope} {name : String}

theorem define_bound {found : Slot} (h : lookupName name scope.bindings = some found)
    (value : Value) :
    (m.over (scope :: rest)).env.define name value = .error (.redefined name) := by
  unfold Environment.define
  rw [show (m.over (scope :: rest)).env.scopes.lookupCurrent name = some found from h]

theorem define_free (h : lookupName name scope.bindings = none) (value : Value) :
    (m.over (scope :: rest)).env.define name value = .ok ((m.env.memory.alloc value).1,
      ⟨⟨{ scope with bindings := (name, (m.env.memory.alloc value).1) :: scope.bindings } :: rest,
        m.env.scopes.global⟩, (m.env.memory.alloc value).2⟩) := Environment.define_eq h

theorem bind_bound {found : Slot} (h : lookupName name scope.bindings = some found) (slot : Slot) :
    (m.over (scope :: rest)).env.bind name slot = .error (.redefined name) := by
  unfold Environment.bind ScopeStack.bind
  rw [show (m.over (scope :: rest)).env.scopes.lookupCurrent name = some found from h]
  rfl

theorem bind_free (h : lookupName name scope.bindings = none) (slot : Slot) :
    (m.over (scope :: rest)).env.bind name slot = .ok
      ⟨⟨{ scope with bindings := (name, slot) :: scope.bindings } :: rest, m.env.scopes.global⟩,
        m.env.memory⟩ := Environment.bind_eq h

theorem left_over {n : Machine} {inner inner' kept : List Scope}
    (h : ScopeStack.truncate ⟨inner', n.env.scopes.global⟩ (inner.length + 1) =
      ⟨kept, n.env.scopes.global⟩) :
    Eval.left (m.over inner) (n.over inner') = (Eval.left m n).over kept := by
  show { Eval.left m n with env := { n.env with
    scopes := ScopeStack.truncate ⟨inner', n.env.scopes.global⟩ (inner.length + 1) } } = _
  rw [h]
  unfold Machine.over Machine.mapScopes Eval.left
  simp [ScopeStack.truncate]

end Machine

/-- The machine at another line. -/
def Machine.onLine (m : Machine) (line : Nat) : Machine := { m with line }

/-- Two machines that are the same but for what lies below the scope of a call, and for their lines,
which are related. -/
inductive Twins (lines : Nat → Nat → Prop) (below below' : List Scope) : Machine → Machine → Prop
  | mk (m : Machine) {above : List Scope} {line : Nat} (hframed : Framed above)
    (hline : lines m.line line) :
    Twins lines below below' (m.over (above ++ below)) ((m.onLine line).over (above ++ below'))

namespace Twins

variable {lines : Nat → Nat → Prop} {below below' : List Scope} {m m' : Machine}

/-- On the same line the machines differ below the scope of the call only. -/
theorem same (m : Machine) {above : List Scope} (hframed : Framed above) :
    Twins Eq below below' (m.over (above ++ below)) (m.over (above ++ below')) := .mk m hframed rfl

theorem exists_over (h : Twins Eq below below' m m') : ∃ (n : Machine) (above : List Scope),
    Framed above ∧ m = n.over (above ++ below) ∧ m' = n.over (above ++ below') := by
  obtain ⟨n, hframed, rfl⟩ := h
  exact ⟨n, _, hframed, rfl, rfl⟩

theorem resembles ⦃m m' : Machine⦄ (h : Twins lines below below' m m') : m.Resembles m' := by
  cases h
  rfl

/-- A name stands for the same on both machines. -/
theorem lookup (h : Twins lines below below' m m') (name : String) :
    m'.env.scopes.lookup name = m.env.scopes.lookup name := by
  cases h with
  | mk m hframed hline =>
    have hleft := hframed.lookupFrom below m.env.scopes.global name
    have hright := hframed.lookupFrom below' m.env.scopes.global name
    exact hright.trans hleft.symm

theorem isAlive (h : Twins lines below below' m m') {held held' : List Anchor}
    (hshares : Shares below below' held held') (id : ObjectId) :
    Eval.isAlive m held id = Eval.isAlive m' held' id := by
  cases h with
  | @mk m above line hframed hline =>
    refine Eval.isAlive_congr ?_ ?_ (hshares.above above) id
    · rfl
    · rfl

end Twins

namespace Eval

variable {α : Type} {lines : Nat → Nat → Prop} {below below' : List Scope} {ctx : Context}

namespace Parallel

/-- A change of the scopes above, which is the same on both sides. -/
theorem scopes {f f' : ScopeStack → ScopeStack}
    (h : ∀ {above : List Scope} (global : Bindings), Framed above → ∃ above', Framed above' ∧
      f ⟨above ++ below, global⟩ = ⟨above' ++ below, global⟩ ∧
      f' ⟨above ++ below', global⟩ = ⟨above' ++ below', global⟩) :
    Parallel (Twins lines below below') below below' ctx (Run.updateScopes f)
      (Run.updateScopes f') := by
  rintro held held' - - - @⟨m, above, line, hframed, hline⟩
  obtain ⟨above', hframed', hleft, hright⟩ := h m.env.scopes.global hframed
  have hboth := @Twins.mk lines below below' m _ _ hframed' hline
  rw [← m.mapScopes_over hleft, ← (m.onLine line).mapScopes_over hright] at hboth
  exact ⟨rfl, hboth⟩

/-- Everything but the scopes is read off both machines. -/
theorem glance {f f' : Machine → Eval α}
    (hread : ∀ (m : Machine) scopes, f { m with env := { m.env with scopes } } = f m)
    (hread' : ∀ (m : Machine) scopes, f' { m with env := { m.env with scopes } } = f' m)
    (hf : ∀ m, Parallel (Twins Eq below below') below below' ctx (f m) (f' m)) :
    Parallel (Twins Eq below below') below below' ctx (machine >>= f) (machine >>= f') := by
  refine look fun held held' hshares m m' hm => ?_
  obtain ⟨n, above, hframed, rfl, rfl⟩ := hm.exists_over
  have hleft : f (n.over (above ++ below)) = f n := hread n _
  have hright : f' (n.over (above ++ below')) = f' n := hread' n _
  rw [hleft, hright]
  exact hf n hshares (.same n hframed)

end Parallel

namespace Isolated

/-- What does the same on twins composes. -/
theorem twins : Composes (Isolated (Twins lines below below') below below' ctx) :=
  composes Twins.resembles

theorem sees : Sees (Isolated (Twins lines below below') below below' ctx) where
  resolved name := by
    refine Parallel.look fun held held' hshares m m' hm => ⟨?_, hm⟩
    show Except.ok (resolve m name) = Except.ok (resolve m' name)
    unfold resolve
    rw [hm.lookup name, hm.resembles]
  known name := by
    refine Parallel.look fun held held' hshares m m' hm => ⟨?_, hm⟩
    show Except.ok (Value.bool (isKnown m name)) = Except.ok (Value.bool (isKnown m' name))
    unfold isKnown
    rw [hm.lookup name, hm.resembles]
  receiver := by
    refine Parallel.look fun held held' hshares m m' hm => ?_
    rw [hm.lookup "this"]
    cases m.env.scopes.lookup "this" with
    | some slot => exact ⟨rfl, hm⟩
    | none => exact ⟨rfl, hm⟩
  alive anchors id := by
    refine Parallel.look fun held held' hshares m m' hm => ⟨?_, hm⟩
    exact congrArg Except.ok (hm.isAlive (hshares.append anchors) id)

theorem glance {f : Machine → Eval α}
    (hread : ∀ (m : Machine) scopes, f { m with env := { m.env with scopes } } = f m)
    (hf : ∀ m, Isolated (Twins Eq below below') below below' ctx (f m)) :
    Isolated (Twins Eq below below') below below' ctx (machine >>= f) :=
  Parallel.glance hread hread hf

/-- A change that has nothing to do with scopes. -/
theorem update {f : Machine → Machine}
    (hf : ∀ (m : Machine) inner, f (m.over inner) = (f m).over inner) :
    Isolated (Twins Eq below below') below below' ctx (update f) := by
  intro held held' hshares m m' hm
  obtain ⟨n, above, hframed, rfl, rfl⟩ := hm.exists_over
  refine ⟨rfl, ?_⟩
  rw [update_apply, update_apply, hf, hf]
  exact .same (f n) hframed

/-- A change of the machine that has nothing to do with scopes and lines. -/
theorem updateMemory (f : Memory → Memory) : Isolated (Twins lines below below') below below' ctx
    (Eval.update fun m => { m with env := { m.env with memory := f m.env.memory } }) := by
  rintro held held' - - - ⟨m, hframed, hline⟩
  exact ⟨rfl, .mk { m with env := { m.env with memory := f m.env.memory } } hframed hline⟩

theorem define (name : String) (value : Value) :
    Isolated (Twins lines below below') below below' ctx (define name value) := by
  rintro held held' - - - ⟨m, hframed, hline⟩
  obtain ⟨scope, rest, rfl, hrest⟩ := hframed.innermost
  rw [List.cons_append, List.cons_append, define_apply, define_apply]
  cases hfound : lookupName name scope.bindings with
  | some slot =>
    rw [Machine.define_bound hfound, Machine.define_bound hfound]
    exact ⟨rfl, .mk m hframed hline⟩
  | none =>
    rw [Machine.define_free hfound, Machine.define_free hfound]
    exact ⟨rfl, .mk { m with env := { m.env with memory := (m.env.memory.alloc value).2 } }
      (hrest { scope with bindings := (name, _) :: scope.bindings } rfl) hline⟩

theorem bindName (name : String) (slot : Slot) :
    Isolated (Twins lines below below') below below' ctx (Eval.bind name slot) := by
  rintro held held' - - - ⟨m, hframed, hline⟩
  obtain ⟨scope, rest, rfl, hrest⟩ := hframed.innermost
  rw [List.cons_append, List.cons_append, bind_apply, bind_apply]
  cases hfound : lookupName name scope.bindings with
  | some found =>
    rw [Machine.bind_bound hfound, Machine.bind_bound hfound]
    exact ⟨rfl, .mk m hframed hline⟩
  | none =>
    rw [Machine.bind_free hfound, Machine.bind_free hfound]
    exact ⟨rfl, .mk m (hrest { scope with bindings := (name, slot) :: scope.bindings } rfl) hline⟩

theorem place (value : Value) :
    Isolated (Twins lines below below') below below' ctx (place value) := by
  rintro held held' - - - ⟨m, hframed, hline⟩
  exact ⟨rfl,
    .mk { m with env := { m.env with memory := (m.env.memory.place value).2 } } hframed hline⟩

theorem reportAll (errors : List EvalError) :
    Isolated (Twins Eq below below') below below' ctx (Eval.update (·.reportAll errors)) := by
  refine update fun m inner => ?_
  induction errors generalizing m with
  | nil => rfl
  | cons error rest ih => exact ih (m.report (.eval error))

theorem defineReceiver (id : ObjectId) :
    Isolated (Twins lines below below') below below' ctx (defineReceiver id) :=
  read Twins.resembles (fun _ _ _ _ _ => rfl) fun _ =>
    twins.bind (updateMemory fun _ => _) fun _ => bindName "this" _

end Isolated

/-- A context in which bodies and files do the same on twins, and the embedding program does. -/
structure Isolates (below below' : List Scope) (ctx : Context) : Prop where
  runBody : ∀ {lines : Nat → Nat → Prop}, (∀ line, lines line line) → ∀ body inFunction,
    Isolated (Twins lines below below') below below' ctx (runBody body inFunction)
  callHost : ∀ entry args,
    Isolated (Twins Eq below below') below below' ctx (callHost entry args)

namespace Isolates

theorem callBody (h : Isolates below below' ctx) (hlines : ∀ line, lines line line)
    (receiver : Option ObjectId) (bound : List (String × Bound)) (body : List Text.SourceLine) :
    Isolated (Twins lines below below') below below' ctx (callBody receiver bound body) :=
  Isolated.twins.callBody Isolated.bindName Isolated.define
    Isolated.defineReceiver (fun body => h.runBody hlines body true) receiver bound body

/-- A call within a call has the scopes of both above. -/
theorem frame (h : Isolates below below' ctx) (file : String) (receiver : Option ObjectId)
    (bound : List (String × Bound)) (body : List Text.SourceLine) :
    Isolated (Twins Eq below below') below below' ctx
      (inFrame file (Eval.callBody receiver bound body)) := by
  intro held held' hshares m m' hm
  obtain ⟨caller, above, hframed, rfl, rfl⟩ := hm.exists_over
  obtain ⟨scope, rest, rfl, -⟩ := hframed.innermost
  let begun : Machine := { caller with file, lastIf := none, callDepth := caller.callDepth + 1 }
  let call : Scope := { Scope.call with skipping := Scope.call.skipping || scope.skipping }
  have hentered : Twins Eq below below' (entered file (caller.over (scope :: rest ++ below)))
      (entered file (caller.over (scope :: rest ++ below'))) :=
    .same begun (.above call hframed)
  obtain ⟨hresult, hafter⟩ :=
    h.callBody (fun _ => rfl) receiver bound body hshares hentered
  rw [inFrame_apply, inFrame_apply]
  refine ⟨hresult, ?_⟩
  obtain ⟨n, above, hframed', hn, hn'⟩ := hafter.exists_over
  obtain ⟨kept, hkept, htruncate⟩ := hframed'.truncate (Nat.zero_lt_succ rest.length)
  have hleft (lower : List Scope) :
      left (caller.over (scope :: rest ++ lower)) (n.over (above ++ lower)) =
        (left caller n).over (kept ++ lower) := by
    refine Machine.left_over ?_
    rw [← htruncate, List.length_append, List.length_cons]
  dsimp only
  rw [hn, hn', hleft, hleft]
  exact .same (left caller n) hkept

theorem runSource (h : Isolates below below' ctx) (name text : String) :
    Isolated (Twins Eq below below') below below' ctx (runSource name text) := by
  have hcomposes := @Isolated.twins Eq below below' ctx
  refine hcomposes.bind (Isolated.update fun _ _ => rfl) fun _ => ?_
  refine hcomposes.bind (hcomposes.attempt (h.runBody (fun _ => rfl) _ false)) fun result => ?_
  have hflag : Isolated (Twins Eq below below') below below' ctx
      (do return !(← machine).errorFlag : Eval Bool) :=
    Isolated.glance (fun _ _ => rfl) fun _ => hcomposes.pure _
  cases result with
  | error fault => exact hcomposes.bind (Isolated.update fun _ _ => rfl) fun _ => hflag
  | ok flow => exact hflag

theorem includeFile (h : Isolates below below' ctx) (path : String) :
    Isolated (Twins Eq below below') below below' ctx (includeFile path) := by
  have hcomposes := @Isolated.twins Eq below below' ctx
  refine Isolated.glance (fun _ _ => rfl) fun m => ?_
  split
  · exact hcomposes.raise _
  · split
    · exact hcomposes.raise _
    · refine hcomposes.bind (Isolated.update fun _ _ => rfl) fun _ => ?_
      refine hcomposes.bind (h.runSource _ _) fun ok => ?_
      exact hcomposes.bind (Isolated.update fun _ _ => rfl) fun _ => hcomposes.pure ok

/-- Every evaluation in the body of a call does the same on twins. -/
theorem steps (h : Isolates below below' ctx) :
    Steps (Isolated (Twins Eq below below') below below' ctx) where
  toComposes := Isolated.twins
  toSees := Isolated.sees
  print _ := Isolated.update fun _ _ => rfl
  warn _ := Isolated.update fun _ _ => rfl
  debug _ := Isolated.update fun _ _ => rfl
  reportMessage _ := Isolated.update fun _ _ => rfl
  reportAll := Isolated.reportAll
  giveIds _ := Isolated.update fun _ _ => rfl
  fileOperation _ := Isolated.glance (fun _ _ => rfl) fun _ =>
    Parallel.bind (Isolated.update fun _ _ => rfl) fun _ => Isolated.twins.pure _
  define := Isolated.define
  write _ _ := Isolated.update fun _ _ => rfl
  place := Isolated.place
  callUser := Isolated.twins.callUser h.frame
  callProcedure := Isolated.twins.callProcedure h.frame
  includeFile := h.includeFile
  callHost := h.callHost

end Isolates

end Eval

end BuildScript
