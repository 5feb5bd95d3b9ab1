import BuildScript.Proofs.Storage.Reached

/-!
Paths into values: a variable with steps to fields and elements. Where a path leads is decided by
the slots that it passes, and evaluating it changes nothing.
-/

namespace BuildScript

open Eval (machine evalExpr memberWith indexWith andThen_apply andThen_apply_ok andThen_apply_error)

/-- A step from a value to a part of it. -/
inductive PathStep where
  /-- `.name` -/
  | field (name : String)
  /-- `[position]` with a literal position. -/
  | index (position : Int32)
  deriving DecidableEq

/-- A variable of any scope, followed by steps. -/
structure Path where
  root : Variable
  steps : List PathStep

/-- The evaluation of a step on what an evaluation gives. -/
def PathStep.after (step : PathStep) (x : Eval Operand) : Eval Operand :=
  match step with
  | .field name => memberWith x name
  | .index position => indexWith x (evalExpr (.literal (.int position)))

namespace Path

/-- The evaluation of steps, one on the result of the other. -/
def walk : List PathStep → Eval Operand → Eval Operand
  | [], x => x
  | step :: rest, x => walk rest (step.after x)

/-- The evaluation of a path. Its variable may belong to a scope that is not visible. -/
def eval (path : Path) : Eval Operand := do
  match (← machine).env.scopes.slotOf path.root with
  | some slot => walk path.steps (pure (.reference slot))
  | none => Eval.raise (.notDeclared path.root.name)

/-- The expression with steps after another expression. -/
def exprFrom : List PathStep → Expr → Expr
  | [], expr => expr
  | .field name :: rest, expr => exprFrom rest (.member expr name)
  | .index position :: rest, expr =>
    exprFrom rest (.binary .arrayAccess expr (.literal (.int position)))

/-- The expression of a path. -/
def expr (path : Path) : Expr := exprFrom path.steps (.identifier path.root.name)

/-- The variable of the path is what its name stands for. -/
def Visible (path : Path) (m : Machine) : Prop :=
  DataType.ofKeyword? path.root.name = none ∧ ∃ slot,
    m.env.scopes.slotOf path.root = some slot ∧ m.env.scopes.lookup path.root.name = some slot

end Path

namespace Memory

/-- The character at a position, as a text. -/
def character (position : Int32) (text : String) : Option Operand :=
  match Integer.toIndex position text.length with
  | .ok i => some (.ofValue (.string (String.ofList ((text.toList.drop i).take 1))))
  | .error _ => none

/-- The slot at a position. -/
def itemAt (position : Int32) (items : List Slot) : Option Slot :=
  match Integer.toIndex position items.length with
  | .ok i => items[i]?
  | .error _ => none

/-- The member of an object: a field, or a method bound to the object. -/
def member (id : ObjectId) (object : Instance) (name : String) : Option Operand :=
  if object.className.isEmpty then none
  else
    match lookupName name object.fields, lookupName name object.methods with
    | some part, _ => some (.reference part)
    | none, some method => some (.ofValue (.atom (.function method (some id))))
    | none, none => none

/-- Where a step leads, if it leads anywhere. -/
def take (memory : Memory) : Operand → PathStep → Option Operand
  | .reference slot, .field name =>
    match memory.content slot with
    | .object id => member id (memory.instanceOf id) name
    | _ => none
  | .reference slot, .index position =>
    match memory.content slot with
    | .array _ items | .list items => (itemAt position items).map .reference
    | .atom (.string text) => character position text
    | _ => none
  | .temporary (.string text) _, .index position => character position text
  | .temporary _ _, _ => none

/-- Where steps lead. -/
def follow (memory : Memory) : Operand → List PathStep → Option Operand
  | operand, [] => some operand
  | operand, step :: rest => (memory.take operand step).bind (memory.follow · rest)

end Memory

/-- A reference, or a value without parts. -/
inductive Operand.Simple : Operand → Prop
  | reference (slot : Slot) : Simple (.reference slot)
  | atom (atom : Atom) (isLiteral : Bool) : Simple (.temporary (.atom atom) isLiteral)

namespace Path

open Eval (require memberOf objectOf instantiated valueBy valueOf element voidIn?)

variable {ctx : Context} {m : Machine} {operand next : Operand} {step : PathStep}

/-- The evaluation does what is expected of it and leaves the machine alone. -/
def Gives (x : Eval Operand) (ctx : Context) (m : Machine) (expected : Option Operand) : Prop :=
  match expected with
  | some operand => x ctx m = (.ok operand, m)
  | none => ∃ fault, x ctx m = (.error fault, m)

theorem gives_error {x : Eval Operand} {fault : Fault} (h : x ctx m = (.error fault, m)) :
    Gives x ctx m none := ⟨fault, h⟩

theorem gives_congr {x y : Eval Operand} {expected : Option Operand} (h : Gives y ctx m expected)
    (hsame : x ctx m = y ctx m) : Gives x ctx m expected := by
  unfold Gives at h ⊢
  rwa [hsame]

/-- An operand without a value leads nowhere. -/
theorem gives_required {f : Operand → Eval Operand} {expected : Option Operand}
    (h : voidIn? m operand = none → Gives (f operand) ctx m expected)
    (hvoid : voidIn? m operand ≠ none → expected = none) :
    Gives (pure operand >>= fun found => require found >>= f) ctx m expected := by
  cases hname : voidIn? m operand with
  | some name =>
    have hrequire : require operand ctx m =
        (.error (.eval (if name.isEmpty then .noValue else .notDeclared name)), m) := by
      unfold require
      rw [andThen_apply, Eval.machine_apply]
      simp only [hname]
      split <;> rfl
    rw [hvoid (by rw [hname]; exact Option.some_ne_none name)]
    apply gives_error
    rw [andThen_apply_ok (Eval.pure_apply operand ctx m), andThen_apply_error hrequire]
  | none =>
    have hrequire : require operand ctx m = (.ok operand, m) := by
      unfold require
      rw [andThen_apply, Eval.machine_apply]
      simp only [hname]
      rfl
    have hgives := h hname
    unfold Gives at hgives ⊢
    rwa [andThen_apply_ok (Eval.pure_apply operand ctx m), andThen_apply_ok hrequire]

theorem memberOf_gives (name : String) (slot : Slot) :
    Gives (memberOf (.reference slot) name) ctx m
      (m.env.memory.take (.reference slot) (.field name)) := by
  cases hcontent : m.env.memory.content slot with
  | object id =>
    have hobject : objectOf (.reference slot) ctx m = (.ok (some id), m) := by
      simp only [objectOf, andThen_apply, Eval.machine_apply, hcontent]
      rfl
    unfold memberOf
    simp only [Memory.take, hcontent, Memory.member]
    by_cases hclass : (m.env.memory.instanceOf id).className.isEmpty = true
    · rw [if_pos hclass]
      have hinstance : instantiated id name ctx m = (.error (.eval (.uninstantiatedObject name)), m) := by
        simp only [instantiated, andThen_apply, Eval.machine_apply, hclass, if_true, Eval.raise_apply]
      apply gives_error
      rw [andThen_apply_ok hobject]
      exact andThen_apply_error hinstance
    · rw [if_neg hclass]
      have hinstance : instantiated id name ctx m = (.ok (m.env.memory.instanceOf id), m) := by
        simp only [instantiated, andThen_apply, Eval.machine_apply]
        rw [if_neg hclass]
        rfl
      unfold Gives
      rw [andThen_apply_ok hobject]
      dsimp only
      rw [andThen_apply_ok hinstance]
      cases lookupName name (m.env.memory.instanceOf id).fields with
      | some part => rfl
      | none =>
        cases lookupName name (m.env.memory.instanceOf id).methods with
        | some method => rfl
        | none => exact ⟨_, rfl⟩
  | _ =>
    simp only [Memory.take, hcontent]
    have hobject : objectOf (.reference slot) ctx m = (.ok none, m) := by
      simp only [objectOf, andThen_apply, Eval.machine_apply, hcontent]
      rfl
    apply gives_error
    unfold memberOf
    rw [andThen_apply_ok hobject]
    rfl

/-- A void slot is no container. -/
theorem take_void (slot : Slot) (hvoid : voidIn? m (.reference slot) ≠ none) :
    m.env.memory.take (.reference slot) step = none := by
  simp only [voidIn?] at hvoid
  split at hvoid
  · rename_i name hcontent
    cases step <;> simp only [Memory.take, hcontent]
  · exact absurd rfl hvoid

theorem elementOf_gives (position : Int32) (items : List Slot) :
    Gives (Eval.elementOf position items) ctx m
      ((Memory.itemAt position items).map .reference) := by
  unfold Eval.elementOf Memory.itemAt
  cases hindex : Integer.toIndex position items.length with
  | error e => exact ⟨_, rfl⟩
  | ok i =>
    dsimp only
    cases hitem : items[i]? with
    | none =>
      refine ⟨.eval (.indexOutOfRange position.toInt items.length), ?_⟩
      rw [andThen_apply]
      simp only [Eval.ofExcept_apply, Except.mapError, hitem, Eval.raise_apply]
    | some slot =>
      unfold Gives
      dsimp only [Option.map]
      rw [andThen_apply]
      simp only [Eval.ofExcept_apply, Except.mapError, hitem, Eval.pure_apply]

theorem character_gives (position : Int32) (text : String) :
    Gives (element.character position (.string text)) ctx m (Memory.character position text) := by
  unfold element.character Memory.character
  cases hindex : Integer.toIndex position text.length with
  | error e =>
    refine ⟨.eval e, ?_⟩
    simp only [andThen_apply, Eval.ofExcept_apply, Except.mapError, hindex]
  | ok i =>
    simp only [Gives, andThen_apply, Eval.ofExcept_apply, Except.mapError, hindex,
      Eval.pure_apply]

/-- The element of a slot with this content. -/
def elementIn (position : Int32) (slot : Slot) : Content → Eval Operand
  | .array _ items | .list items => Eval.elementOf position items
  | _ => do element.character position (← valueOf (.reference slot))

/-- Only texts have characters. -/
theorem character_fails {value : Value} (position : Int32) (h : value.text? = none) :
    Gives (element.character position value) ctx m none := by
  unfold element.character
  split
  · cases h
  · exact ⟨_, rfl⟩

theorem element_gives (position : Int32) (slot : Slot) :
    Gives (element (.reference slot) position) ctx m
      (m.env.memory.take (.reference slot) (.index position)) := by
  have hread : element (.reference slot) position ctx m =
      elementIn position slot (m.env.memory.content slot) ctx m := rfl
  have hvalue (expected : Option Operand)
      (h : Gives (element.character position (m.env.load slot)) ctx m expected) :
      Gives (do element.character position (← valueOf (.reference slot))) ctx m expected := h
  have hload : m.env.load slot = m.env.memory.valueWithin m.env.memory.cells.size
      (m.env.memory.content slot) := rfl
  refine gives_congr ?_ hread
  simp only [Memory.take]
  cases hcontent : m.env.memory.content slot with
  | array type items => exact elementOf_gives position items
  | list items => exact elementOf_gives position items
  | object id =>
    rw [hcontent] at hload
    apply hvalue
    rw [hload]
    exact character_fails position rfl
  | atom atom =>
    rw [hcontent] at hload
    apply hvalue
    rw [hload]
    cases atom with
    | string text => exact character_gives position text
    | macroText text => exact ⟨_, rfl⟩
    | _ => exact character_fails position rfl

theorem position_apply (operand : Operand) (position : Int32) :
    (do
      let found ← Eval.holding operand.anchors (valueBy (evalExpr (.literal (.int position))))
      element operand (← Eval.ofExcept found.asInt) : Eval Operand) ctx m =
      element operand position ctx m := by
  have hposition : Eval.holding operand.anchors (valueBy (evalExpr (.literal (.int position)))) ctx m =
      (.ok (.int position), m) := by
    unfold evalExpr
    rfl
  rw [andThen_apply_ok hposition]
  rfl

/-- The evaluation of a step is decided by where it leads. -/
theorem after_gives (h : operand.Simple) (step : PathStep) :
    Gives (step.after (pure operand)) ctx m (m.env.memory.take operand step) := by
  cases h with
  | reference slot =>
    cases step with
    | field name => exact gives_required (fun _ => memberOf_gives name slot) (take_void slot)
    | index position =>
      refine gives_required (fun _ => ?_) (take_void slot)
      exact gives_congr (element_gives position slot) (position_apply _ position)
  | atom atom isLiteral =>
    cases step with
    | field name =>
      have hnowhere : m.env.memory.take (.temporary (.atom atom) isLiteral) (.field name) = none := by
        cases atom <;> rfl
      rw [hnowhere]
      exact gives_required (fun _ => ⟨_, rfl⟩) fun _ => rfl
    | index position =>
      refine gives_required (fun _ => gives_congr ?_ (position_apply _ position)) fun hvoid => ?_
      · cases atom with
        | string text => exact character_gives position text
        | _ => exact ⟨_, rfl⟩
      · cases atom with
        | void name => rfl
        | _ => exact absurd rfl hvoid

theorem character_simple {position : Int32} {text : String}
    (h : Memory.character position text = some next) : next.Simple := by
  unfold Memory.character at h
  split at h
  · cases h
    exact .atom _ _
  · cases h

theorem member_simple {id : ObjectId} {object : Instance} {name : String}
    (h : Memory.member id object name = some next) : next.Simple := by
  unfold Memory.member at h
  split at h
  · cases h
  · split at h
    · cases h
      exact .reference _
    · cases h
      exact .atom _ _
    · cases h

/-- Steps lead to references and to values without parts. -/
theorem take_simple {memory : Memory} (h : memory.take operand step = some next) :
    next.Simple := by
  unfold Memory.take at h
  split at h
  · split at h
    · exact member_simple h
    · cases h
  · split at h
    · obtain ⟨part, -, rfl⟩ := Option.map_eq_some_iff.mp h
      exact .reference part
    · obtain ⟨part, -, rfl⟩ := Option.map_eq_some_iff.mp h
      exact .reference part
    · exact character_simple h
    · cases h
  · exact character_simple h
  · cases h

theorem walk_congr {x y : Eval Operand} (h : x ctx m = y ctx m) (steps : List PathStep) :
    walk steps x ctx m = walk steps y ctx m := by
  induction steps generalizing x y with
  | nil => exact h
  | cons step rest ih =>
    apply ih
    cases step with
    | field name =>
      simp only [PathStep.after, memberWith, andThen_apply, h]
    | index position =>
      simp only [PathStep.after, indexWith, andThen_apply, h]

theorem walk_error {x : Eval Operand} {fault : Fault} (h : x ctx m = (.error fault, m))
    (steps : List PathStep) : walk steps x ctx m = (.error fault, m) := by
  induction steps generalizing x with
  | nil => exact h
  | cons step rest ih =>
    apply ih
    cases step with
    | field name => exact andThen_apply_error h
    | index position => exact andThen_apply_error h

/-- The evaluation of steps is decided by where they lead. -/
theorem walk_gives (h : operand.Simple) (steps : List PathStep) :
    Gives (walk steps (pure operand)) ctx m (m.env.memory.follow operand steps) := by
  induction steps generalizing operand with
  | nil => rfl
  | cons step rest ih =>
    have hstep : Gives (step.after (pure operand)) ctx m (m.env.memory.take operand step) :=
      after_gives h step
    unfold Memory.follow
    unfold walk
    cases htake : m.env.memory.take operand step with
    | none =>
      rw [htake] at hstep
      obtain ⟨fault, hfault⟩ := hstep
      exact ⟨fault, walk_error hfault rest⟩
    | some next =>
      rw [htake] at hstep
      have hsame : step.after (pure operand) ctx m = (pure next : Eval Operand) ctx m := hstep
      exact gives_congr (ih (take_simple htake)) (walk_congr hsame rest)

/-- The evaluation of a path is decided by where its steps lead from the slot of its variable. -/
theorem eval_gives {path : Path} {slot : Slot} (hslot : m.env.scopes.slotOf path.root = some slot) :
    Gives path.eval ctx m (m.env.memory.follow (.reference slot) path.steps) := by
  refine gives_congr (walk_gives (.reference slot) path.steps) ?_
  unfold eval
  rw [andThen_apply, Eval.machine_apply]
  simp only [hslot]

/-- A path that is evaluated leads from its variable to its value and changes nothing. -/
theorem eval_ok {path : Path} {m' : Machine} (h : path.eval ctx m = (.ok operand, m')) :
    m' = m ∧ ∃ slot, m.env.scopes.slotOf path.root = some slot ∧
      m.env.memory.follow (.reference slot) path.steps = some operand := by
  cases hslot : m.env.scopes.slotOf path.root with
  | none =>
    unfold eval at h
    rw [andThen_apply, Eval.machine_apply] at h
    simp only [hslot] at h
    cases h
  | some slot =>
    have hgives : Gives path.eval ctx m (m.env.memory.follow (.reference slot) path.steps) :=
      eval_gives hslot
    cases hfollow : m.env.memory.follow (.reference slot) path.steps with
    | none =>
      rw [hfollow] at hgives
      obtain ⟨fault, hfault⟩ := hgives
      rw [h] at hfault
      cases hfault
    | some last =>
      rw [hfollow] at hgives
      have heq := h.symm.trans hgives
      cases heq
      exact ⟨rfl, slot, rfl, hfollow⟩

theorem evalExpr_exprFrom (steps : List PathStep) (expr : Expr) :
    evalExpr (exprFrom steps expr) = walk steps (evalExpr expr) := by
  induction steps generalizing expr with
  | nil => rfl
  | cons step rest ih =>
    cases step with
    | field name =>
      unfold exprFrom
      rw [ih, evalExpr]
      rfl
    | index position =>
      unfold exprFrom
      rw [ih, evalExpr]
      · rfl
      · intro _ _ hassign
        cases hassign

/-- The expression of a path means the path where its variable is visible. -/
theorem Visible.evalExpr_eq {path : Path} (h : path.Visible m) :
    evalExpr path.expr ctx m = path.eval ctx m := by
  obtain ⟨hkeyword, slot, hslot, hvisible⟩ := h
  have hname : evalExpr (.identifier path.root.name) ctx m =
      (pure (.reference slot) : Eval Operand) ctx m := by
    unfold evalExpr
    rw [andThen_apply, Eval.machine_apply]
    simp only [Eval.resolve, hkeyword, hvisible]
  unfold expr
  rw [evalExpr_exprFrom, walk_congr hname]
  unfold eval
  rw [andThen_apply, Eval.machine_apply]
  simp only [hslot]

end Path

end BuildScript
