import BuildScript.Proofs.Likeness.Values
import BuildScript.Proofs.Evaluation.Equations

/-!
Storage, names and classes whose functions have other bodies. What is found, read, placed and written
is the same but for the bodies.
-/

namespace BuildScript

variable (ρ : Recast)

def Content.recast : Content → Content
  | .atom a => .atom (a.recast ρ)
  | other => other

def Instance.recast (object : Instance) : Instance :=
  { object with methods := Callable.recastAll ρ object.methods }

def Memory.recast (memory : Memory) : Memory :=
  { cells := memory.cells.map (Content.recast ρ)
    objects := memory.objects.map (Instance.recast ρ) }

def Environment.recast (env : Environment) : Environment :=
  { env with memory := env.memory.recast ρ }

def ClassTable.recast (classes : ClassTable) : ClassTable :=
  List.map (ClassTemplate.recast ρ) classes

def Operand.recast : Operand → Operand
  | reference slot => reference slot
  | temporary value isLiteral => temporary (value.recast ρ) isLiteral

def Eval.Bound.recast : Eval.Bound → Eval.Bound
  | shared slot => shared slot
  | fresh value => fresh (value.recast ρ)

def Flow.recast : Flow → Flow
  | value v => value (v.recast ρ)
  | giveBack v => giveBack (v.map (Value.recast ρ))
  | other => other

/-- The machine with other bodies, without its place in the file and without what it said. -/
def Machine.recast (m : Machine) : Machine :=
  { m with
    env := m.env.recast ρ
    classes := m.classes.recast ρ
    line := 0
    events := [] }

/-- How two runs are looked at: bodies are the same if what is put in place of one in the first run
is what is put in place of the other in the second. -/
structure Sight where
  left : Recast
  right : Recast

/-- One sight takes for the same whatever another does. -/
instance : Preorder Sight where
  le s t := ∃ φ : Recast, t.left = φ.after s.left ∧ t.right = φ.after s.right
  le_refl s := ⟨fun _ body => body, rfl, rfl⟩
  le_trans := by
    rintro s t u ⟨φ, hleft, hright⟩ ⟨ψ, hleft', hright'⟩
    exact ⟨ψ.after φ, by rw [hleft', hleft]; rfl, by rw [hright', hright]; rfl⟩

section

variable (s : Sight)

/-- The same function but for its body. -/
abbrev UserFunction.Akin (function function' : UserFunction) : Prop :=
  function.recast s.left = function'.recast s.right

abbrev Procedure.Akin (procedure procedure' : Procedure) : Prop :=
  procedure.recast s.left = procedure'.recast s.right

abbrev Callable.Akin (callable callable' : Callable) : Prop :=
  callable.recast s.left = callable'.recast s.right

/-- The same value but for bodies. -/
abbrev Value.Akin (v v' : Value) : Prop := v.recast s.left = v'.recast s.right

/-- The same values, in order. -/
abbrev Value.AllAkin (values values' : List Value) : Prop :=
  values.map (recast s.left) = values'.map (recast s.right)

abbrev Content.Akin (content content' : Content) : Prop :=
  content.recast s.left = content'.recast s.right

abbrev Instance.Akin (object object' : Instance) : Prop :=
  object.recast s.left = object'.recast s.right

abbrev ClassTemplate.Akin (template template' : ClassTemplate) : Prop :=
  template.recast s.left = template'.recast s.right

abbrev Operand.Akin (operand operand' : Operand) : Prop :=
  operand.recast s.left = operand'.recast s.right

/-- The same operands, in order. -/
abbrev Operand.AllAkin (operands operands' : List Operand) : Prop :=
  operands.map (recast s.left) = operands'.map (recast s.right)

abbrev Eval.Bound.Akin (b b' : Eval.Bound) : Prop := b.recast s.left = b'.recast s.right

/-- The same parameters, in order, bound to the same. -/
abbrev Eval.Bound.AllAkin (bound bound' : List (String × Eval.Bound)) : Prop :=
  (bound.map fun (name, b) => (name, b.recast s.left)) =
    bound'.map fun (name, b) => (name, b.recast s.right)

abbrev Flow.Akin (flow flow' : Flow) : Prop := flow.recast s.left = flow'.recast s.right

/-- The same machine but for bodies, its place in the file and what it said. -/
abbrev Machine.Akin (m m' : Machine) : Prop := m.recast s.left = m'.recast s.right

end

/-! What is the same stays the same for a sight that takes more for the same. -/

section

variable {s t : Sight}

theorem Sight.body_later {file : String} {body body' : List Text.SourceLine}
    (h : s.left file body = s.right file body') (hle : s ≤ t) :
    t.left file body = t.right file body' := by
  obtain ⟨φ, hleft, hright⟩ := hle
  rw [hleft, hright]
  exact congrArg (φ file) h

theorem UserFunction.Akin.later {function function' : UserFunction} (h : function.Akin s function')
    (hle : s ≤ t) : function.Akin t function' := by
  obtain ⟨φ, hleft, hright⟩ := hle
  rw [Akin, hleft, hright, ← recast_recast, h, recast_recast]

theorem Callable.Akin.later {callable callable' : Callable} (h : callable.Akin s callable')
    (hle : s ≤ t) : callable.Akin t callable' := by
  obtain ⟨φ, hleft, hright⟩ := hle
  rw [Akin, hleft, hright, ← recast_recast, h, recast_recast]

theorem Value.Akin.later {v v' : Value} (h : v.Akin s v') (hle : s ≤ t) : v.Akin t v' := by
  obtain ⟨φ, hleft, hright⟩ := hle
  rw [Akin, hleft, hright, ← recast_recast, h, recast_recast]

theorem Value.AllAkin.later {values values' : List Value} (h : Value.AllAkin s values values')
    (hle : s ≤ t) : Value.AllAkin t values values' := by
  obtain ⟨φ, hleft, hright⟩ := hle
  have hsame := congrArg (List.map (Value.recast φ)) h
  simpa [AllAkin, hleft, hright, Function.comp_def, Value.recast_recast] using hsame

theorem Content.recast_recast (φ ρ : Recast) (content : Content) :
    (content.recast ρ).recast φ = content.recast (φ.after ρ) := by
  cases content <;> simp [recast]

theorem Content.Akin.later {content content' : Content} (h : content.Akin s content')
    (hle : s ≤ t) : content.Akin t content' := by
  obtain ⟨φ, hleft, hright⟩ := hle
  rw [Akin, hleft, hright, ← recast_recast, h, recast_recast]

theorem Operand.recast_recast (φ ρ : Recast) (operand : Operand) :
    (operand.recast ρ).recast φ = operand.recast (φ.after ρ) := by
  cases operand <;> simp [recast, Value.recast_recast]

theorem Operand.Akin.later {operand operand' : Operand} (h : operand.Akin s operand')
    (hle : s ≤ t) : operand.Akin t operand' := by
  obtain ⟨φ, hleft, hright⟩ := hle
  rw [Akin, hleft, hright, ← recast_recast, h, recast_recast]

theorem Operand.AllAkin.later {operands operands' : List Operand}
    (h : Operand.AllAkin s operands operands') (hle : s ≤ t) :
    Operand.AllAkin t operands operands' := by
  obtain ⟨φ, hleft, hright⟩ := hle
  have hsame := congrArg (List.map (Operand.recast φ)) h
  simpa [AllAkin, hleft, hright, Function.comp_def, Operand.recast_recast] using hsame

theorem Eval.Bound.recast_recast (φ ρ : Recast) (b : Eval.Bound) :
    (b.recast ρ).recast φ = b.recast (φ.after ρ) := by
  cases b <;> simp [recast, Value.recast_recast]

theorem Eval.Bound.Akin.later {b b' : Eval.Bound} (h : b.Akin s b') (hle : s ≤ t) : b.Akin t b' := by
  obtain ⟨φ, hleft, hright⟩ := hle
  rw [Akin, hleft, hright, ← recast_recast, h, recast_recast]

theorem Eval.Bound.AllAkin.later {bound bound' : List (String × Eval.Bound)}
    (h : Eval.Bound.AllAkin s bound bound') (hle : s ≤ t) : Eval.Bound.AllAkin t bound bound' := by
  obtain ⟨φ, hleft, hright⟩ := hle
  have hsame := congrArg (List.map fun (name, b) => (name, Eval.Bound.recast φ b)) h
  simpa [AllAkin, hleft, hright, Function.comp_def, Eval.Bound.recast_recast] using hsame

theorem Flow.recast_recast (φ ρ : Recast) (flow : Flow) :
    (flow.recast ρ).recast φ = flow.recast (φ.after ρ) := by
  cases flow <;> simp [recast, Value.recast_recast, Function.comp_def]

theorem Machine.recast_recast (φ ρ : Recast) (m : Machine) :
    (m.recast ρ).recast φ = m.recast (φ.after ρ) := by
  simp [recast, Environment.recast, Memory.recast, ClassTable.recast, Function.comp_def,
    Content.recast_recast, Instance.recast, ClassTemplate.recast]

theorem Machine.Akin.later {m m' : Machine} (h : m.Akin s m') (hle : s ≤ t) : m.Akin t m' := by
  obtain ⟨φ, hleft, hright⟩ := hle
  rw [Akin, hleft, hright, ← recast_recast, h, recast_recast]

theorem Flow.Akin.later {flow flow' : Flow} (h : flow.Akin s flow') (hle : s ≤ t) :
    flow.Akin t flow' := by
  obtain ⟨φ, hleft, hright⟩ := hle
  rw [Akin, hleft, hright, ← recast_recast, h, recast_recast]

end

/-- What does not depend on bodies is the same in both machines. -/
theorem Machine.Akin.observe {s : Sight} {m m' : Machine} {α : Type} (h : m.Akin s m')
    (f : Machine → α) (hf : ∀ (ρ : Recast) (m : Machine), f (m.recast ρ) = f m) : f m = f m' := by
  rw [← hf s.left, h, hf]

variable {ρ}

namespace Memory

@[simp]
theorem content_recast (memory : Memory) (slot : Slot) :
    (memory.recast ρ).content slot = (memory.content slot).recast ρ := by
  unfold content recast
  rcases Nat.lt_or_ge slot.index memory.cells.size with h | h
  · simp [Array.getD, h]
  · simp [Array.getD, Nat.not_lt_of_le h]
    rfl

@[simp]
theorem instanceOf_recast (memory : Memory) (id : ObjectId) :
    (memory.recast ρ).instanceOf id = (memory.instanceOf id).recast ρ := by
  unfold instanceOf recast
  rcases Nat.lt_or_ge id memory.objects.size with h | h
  · simp [Array.getD, h]
  · simp [Array.getD, Nat.not_lt_of_le h]
    rfl

@[simp]
theorem typeOf_recast (memory : Memory) (content : Content) :
    (memory.recast ρ).typeOf (content.recast ρ) = memory.typeOf content := by
  cases content with
  | atom a => exact a.type_recast
  | object id => simp [Content.recast, typeOf, Instance.recast]
  | _ => rfl

theorem loadWithin_recast (depth : Nat) (memory : Memory) (slot : Slot) :
    loadWithin depth (memory.recast ρ) slot = (loadWithin depth memory slot).recast ρ := by
  induction depth generalizing slot with
  | zero => rfl
  | succ depth ih =>
    unfold loadWithin
    rw [content_recast]
    cases memory.content slot with
    | atom a => rfl
    | object id => simp [Content.recast, Value.recast, Instance.recast, ih]
    | _ => simp [Content.recast, Value.recast, ih]

@[simp]
theorem load_recast (memory : Memory) (slot : Slot) :
    (memory.recast ρ).load slot = (memory.load slot).recast ρ := by
  unfold load
  rw [loadWithin_recast]
  simp [recast]

theorem loadInstance_recast (memory : Memory) (id : ObjectId) :
    (memory.recast ρ).loadInstance id = (memory.loadInstance id).recast ρ := by
  simp [loadInstance, Value.recast, Instance.recast]

@[simp]
theorem push_recast (memory : Memory) (content : Content) :
    (memory.recast ρ).push (content.recast ρ) =
      ((memory.push content).1, (memory.push content).2.recast ρ) := by
  simp [push, recast]

mutual

theorem place_recast (memory : Memory) : (v : Value) →
    (memory.recast ρ).place (v.recast ρ) =
      ((memory.place v).1.recast ρ, (memory.place v).2.recast ρ)
  | .atom a => rfl
  | .array element items => by
    simp only [Value.recast, place, placeItems_recast memory items, Content.recast]
  | .list items => by
    simp only [Value.recast, place, placeItems_recast memory items, Content.recast]
  | .object className fields methods => by
    simp only [Value.recast, place, placeFields_recast memory fields, Content.recast]
    simp [recast, Instance.recast]

theorem placeItems_recast (memory : Memory) : (items : List Value) →
    (memory.recast ρ).placeItems (Value.recastItems ρ items) =
      ((memory.placeItems items).1, (memory.placeItems items).2.recast ρ)
  | [] => rfl
  | item :: rest => by
    simp only [Value.recastItems, placeItems, place_recast memory item, push_recast,
      placeItems_recast _ rest]

theorem placeFields_recast (memory : Memory) : (fields : List (String × Value)) →
    (memory.recast ρ).placeFields (Value.recastFields ρ fields) =
      ((memory.placeFields fields).1, (memory.placeFields fields).2.recast ρ)
  | [] => rfl
  | (name, value) :: rest => by
    simp only [Value.recastFields, placeFields, place_recast memory value, push_recast,
      placeFields_recast _ rest]

end

theorem alloc_recast (memory : Memory) (v : Value) :
    (memory.recast ρ).alloc (v.recast ρ) =
      ((memory.alloc v).1, (memory.alloc v).2.recast ρ) := by
  simp only [alloc, place_recast, push_recast]

theorem write_recast (memory : Memory) (slot : Slot) (v : Value) :
    (memory.recast ρ).write slot (v.recast ρ) = (memory.write slot v).recast ρ := by
  unfold write
  rw [place_recast]
  simp [recast]

theorem reachesWithin_recast (depth : Nat) (memory : Memory) (id : ObjectId) (slot : Slot) :
    reachesWithin depth (memory.recast ρ) id slot = reachesWithin depth memory id slot := by
  induction depth generalizing slot with
  | zero => rfl
  | succ depth ih =>
    have hinside := funext fun slot => ih slot
    unfold reachesWithin
    rw [content_recast, hinside]
    cases memory.content slot with
    | object other => simp [Content.recast, Instance.recast]
    | _ => rfl

@[simp]
theorem reaches_recast (memory : Memory) (id : ObjectId) (slot : Slot) :
    (memory.recast ρ).reaches id slot = memory.reaches id slot := by
  unfold reaches
  rw [reachesWithin_recast]
  simp [recast]

end Memory

namespace Environment

theorem define_recast (env : Environment) (name : String) (v : Value) :
    (env.recast ρ).define name (v.recast ρ) =
      (env.define name v).map fun (slot, env) => (slot, env.recast ρ) := by
  unfold define
  simp only [recast]
  cases env.scopes.lookupCurrent name with
  | some slot => rfl
  | none => simp only [Memory.alloc_recast, Except.map]

theorem bind_recast (env : Environment) (name : String) (slot : Slot) :
    (env.recast ρ).bind name slot = (env.bind name slot).map (recast ρ) := by
  unfold bind
  simp only [recast]
  cases env.scopes.bind name slot <;> rfl

end Environment

namespace ClassTable

@[simp]
theorem find?_recast (classes : ClassTable) (name : String) :
    (classes.recast ρ).find? name = (classes.find? name).map (ClassTemplate.recast ρ) := by
  unfold find? recast
  rw [List.find?_map]
  rfl

variable {start : List String → DataType → Option Value × List EvalError}

theorem expand_recast (classes : ClassTable) (pending : List String) (name : String)
    {start' : List String → DataType → Option Value × List EvalError}
    (h : ∀ pending type, start' pending type =
      ((start pending type).1.map (Value.recast ρ), (start pending type).2)) :
    expand start' (classes.recast ρ) pending name =
      ((expand start classes pending name).1.recast ρ, (expand start classes pending name).2) := by
  unfold expand
  rw [find?_recast]
  cases classes.find? name with
  | none => rfl
  | some template =>
    simp only [Option.map_some, ClassTemplate.recast, Value.recast, h, List.filterMap_map,
      List.flatMap_map, Value.recastFields_eq, List.map_filterMap]
    congr 1
    · congr 1
      apply List.filterMap_congr
      intro field _
      simp only [Function.comp_def]
      cases (start (template.name :: pending) field.type).1 <;> rfl
    · congr 1
      funext field
      cases (start (template.name :: pending) field.type).1 <;> rfl

theorem startWithin_recast (fuel : Nat) (classes : ClassTable) (pending : List String)
    (type : DataType) : startWithin fuel (classes.recast ρ) pending type =
      ((startWithin fuel classes pending type).1.map (Value.recast ρ),
        (startWithin fuel classes pending type).2) := by
  induction fuel generalizing pending type with
  | zero => rfl
  | succ fuel ih =>
    unfold startWithin
    cases type with
    | object name =>
      dsimp only
      split
      · rfl
      · rw [expand_recast classes pending name fun pending type => ih pending type]
        rfl
    | array element =>
      dsimp only
      split <;> rfl
    | _ => rfl

theorem start_recast (classes : ClassTable) (type : DataType) :
    (classes.recast ρ).start type =
      ((classes.start type).1.map (Value.recast ρ), (classes.start type).2) := by
  unfold start
  rw [startWithin_recast]
  simp [enoughFuel, recast]

end ClassTable

namespace Operand

@[simp]
theorem anchors_recast (operand : Operand) : (operand.recast ρ).anchors = operand.anchors := by
  cases operand <;> rfl

end Operand

namespace Eval

theorem givenBack_recast (flow : Flow) :
    givenBack (flow.recast ρ) = (givenBack flow).map (Value.recast ρ) := by
  cases flow <;> rfl

@[simp]
theorem valueIn_recast (m : Machine) (operand : Operand) :
    valueIn (m.recast ρ) (operand.recast ρ) = (valueIn m operand).recast ρ := by
  cases operand with
  | reference slot => exact m.env.memory.load_recast slot
  | temporary value isLiteral => rfl

@[simp]
theorem typeIn_recast (m : Machine) (operand : Operand) :
    typeIn (m.recast ρ) (operand.recast ρ) = typeIn m operand := by
  cases operand with
  | reference slot => simp [Operand.recast, typeIn, Machine.recast, Environment.recast]
  | temporary value isLiteral => exact value.type_recast

@[simp]
theorem voidIn?_recast (m : Machine) (operand : Operand) :
    voidIn? (m.recast ρ) (operand.recast ρ) = voidIn? m operand := by
  cases operand with
  | reference slot =>
    simp only [Operand.recast, voidIn?, Machine.recast, Environment.recast, Memory.content_recast]
    cases m.env.memory.content slot with
    | atom a => cases a <;> rfl
    | _ => rfl
  | temporary value isLiteral =>
    cases value with
    | atom a => cases a <;> rfl
    | _ => rfl

theorem resolve_recast (m : Machine) (name : String) :
    resolve (m.recast ρ) name = (resolve m name).recast ρ := by
  unfold resolve
  cases DataType.ofKeyword? name with
  | some type => rfl
  | none =>
    simp only [Machine.recast, Environment.recast, ClassTable.find?_recast]
    cases m.env.scopes.lookup name with
    | some slot => rfl
    | none =>
      cases Builtin.ofName? name with
      | some builtin => rfl
      | none => cases m.classes.find? name <;> rfl

@[simp]
theorem isKnown_recast (m : Machine) (name : String) :
    isKnown (m.recast ρ) name = isKnown m name := by
  simp [isKnown, Machine.recast, Environment.recast]

theorem builtinMethod?_recast (m : Machine) (type : DataType) (name : String) :
    builtinMethod? (m.recast ρ) type name = (builtinMethod? m type name).map (Callable.recast ρ) := by
  unfold builtinMethod?
  cases type.builtinClass? with
  | none => rfl
  | some className =>
    simp only [Machine.recast, ClassTable.find?_recast, Option.bind_eq_bind, Option.bind_some]
    cases m.classes.find? className with
    | none => rfl
    | some template =>
      simp only [Option.map_some, Option.bind_some]
      exact lookupName_map (Callable.recast ρ) name template.methods

@[simp]
theorem isAlive_recast (m : Machine) (held : List Anchor) (id : ObjectId) :
    isAlive (m.recast ρ) held id = isAlive m held id := by
  have hreaches : (m.env.memory.recast ρ).reaches id = m.env.memory.reaches id :=
    funext fun slot => m.env.memory.reaches_recast id slot
  simp [isAlive, Machine.recast, Environment.recast, Instance.recast, hreaches]

theorem boundFor_recast (m : Machine) (function : String) (position : Nat) (param : Parameter)
    (arg : Operand) : boundFor (m.recast ρ) function position param (arg.recast ρ) =
      (boundFor m function position param arg).map (Bound.recast ρ) := by
  have hconvert : ((valueIn m arg).recast ρ).convert param.type =
      ((valueIn m arg).convert param.type).map (Value.recast ρ) :=
    Value.convert_recast _ _
  have hfresh : boundFor (m.recast ρ) function position { param with byReference := false }
      (arg.recast ρ) = (boundFor m function position { param with byReference := false } arg).map
        (Bound.recast ρ) := by
    simp only [boundFor, typeIn_recast, valueIn_recast, hconvert]
    split
    · rfl
    · split
      · cases (valueIn m arg).convert param.type <;> rfl
      · rfl
  obtain ⟨type, name, byReference⟩ := param
  cases byReference with
  | false => exact hfresh
  | true =>
    cases arg with
    | temporary value isLiteral => rfl
    | reference slot =>
      simp only [boundFor, typeIn_recast]
      change (if _ then _ else _) = Except.map _ (if _ then _ else _)
      split <;> rfl

end Eval

end BuildScript
