import BuildScript.Proofs.Evaluation.Names
import BuildScript.Proofs.Run.Including
import Mathlib

/-!
Declared names. A declaration binds its name in the innermost scope, and the innermost scope is the
first one a name is looked up in. Before all scopes come the type keywords, though, which can be
declared like any other name: such a variable is there, but its name never stands for it.
-/

namespace BuildScript

namespace Eval

open Machine (KeepsBound)
open Text (SourceLine)

variable {ctx : Context} {name : String} {m after : Machine} {operand : Operand} {slot : Slot}

/-- A name has just been declared, with the operand that stands for it: by a statement, by the header
of a function or procedure, which takes the next slot, or as a parameter that shares a slot or gets
one of its own. -/
inductive Declares (ctx : Context) (name : String) (m : Machine) : Operand → Machine → Prop
  | statement {expr : Expr} {operand : Operand} {after : Machine}
    (hname : (Item.expression expr).declared? = some name)
    (hrun : evalExpr expr ctx m = (.ok operand, after)) : Declares ctx name m operand after
  | header {header : Header} {body : List SourceLine} {after : Machine}
    (hname : (Item.declaration header (.ok body)).declared? = some name)
    (hrun : Run.declareHeader header body ctx m = (.ok (), after)) :
    Declares ctx name m (.reference ⟨m.env.memory.cells.size⟩) after
  | shared {slot : Slot} {after : Machine}
    (hrun : bindParameters [(name, .shared slot)] ctx m = (.ok (), after)) :
    Declares ctx name m (.reference slot) after
  | fresh {value : Value} {after : Machine}
    (hrun : bindParameters [(name, .fresh value)] ctx m = (.ok (), after)) :
    Declares ctx name m (.reference (m.env.memory.alloc value).1) after

/-- The last thing that was done to the scopes is to bind a name to a slot, in the innermost scope and
where it was free. -/
def JustBound (name : String) (slot : Slot) (after : Machine) : Prop :=
  ∃ stack : ScopeStack, stack.lookupCurrent name = none ∧
    after.env.scopes = stack.addBinding name slot

theorem JustBound.slotOf (h : JustBound name slot after) :
    after.env.scopes.slotOf ⟨after.env.scopes.inner.length, name⟩ = some slot := by
  obtain ⟨stack, -, hscopes⟩ := h
  rw [hscopes, (ScopeStack.Within.addBinding stack name slot).length_inner,
    ScopeStack.slotOf_addBinding, if_pos rfl]

theorem define_justBound {value : Value} (hrun : define name value ctx m = (.ok slot, after)) :
    JustBound name slot after ∧ slot = (m.env.memory.alloc value).1 := by
  obtain ⟨env, hdefine, rfl⟩ := define_ok hrun
  obtain ⟨hfree, rfl, rfl⟩ := Environment.define_ok hdefine
  exact ⟨⟨m.env.scopes, hfree, rfl⟩, rfl⟩

theorem bind_justBound (hrun : Eval.bind name slot ctx m = (.ok (), after)) :
    JustBound name slot after := by
  obtain ⟨env, hbind, rfl⟩ := bind_ok hrun
  obtain ⟨hfree, rfl⟩ := Environment.bind_ok hbind
  exact ⟨m.env.scopes, hfree, rfl⟩

theorem declare_justBound {type : DataType} {initial : Option Value}
    (hrun : declare type name initial ctx m = (.ok operand, after)) :
    ∃ slot, operand = .reference slot ∧ JustBound name slot after := by
  obtain ⟨value, between, -, hdefine⟩ : ∃ (value : Value) (between : Machine), True ∧
      (do return .reference (← define name value) : Eval Operand) ctx between =
        (.ok operand, after) := by
    cases initial with
    | some value =>
      obtain ⟨converted, between, -, hrest⟩ := andThen_ok hrun
      exact ⟨converted, between, trivial, hrest⟩
    | none =>
      obtain ⟨value, between, -, hrest⟩ := andThen_ok hrun
      exact ⟨value, between, trivial, hrest⟩
  obtain ⟨slot, bound, hbound, hrest⟩ := andThen_ok hdefine
  cases hrest
  exact ⟨slot, rfl, (define_justBound hbound).1⟩

theorem evalExpr_justBound {expr : Expr} (hname : (Item.expression expr).declared? = some name)
    (hrun : evalExpr expr ctx m = (.ok operand, after)) :
    ∃ slot, operand = .reference slot ∧ JustBound name slot after := by
  unfold Item.declared? at hname
  split at hname
  · rename_i type declared heq
    cases heq
    cases hname
    rw [evalExpr] at hrun
    exact declare_justBound hrun
  · rename_i type declared value heq
    cases heq
    cases hname
    rw [evalExpr] at hrun
    obtain ⟨initial, between, -, hrest⟩ := andThen_ok hrun
    exact declare_justBound hrest
  · rename_i heq
    cases heq
  · rename_i heq
    cases heq
  · cases hname

theorem declareHeader_justBound {header : Header} {body : List SourceLine}
    (hname : (Item.declaration header (.ok body)).declared? = some name)
    (hrun : Run.declareHeader header body ctx m = (.ok (), after)) :
    JustBound name ⟨m.env.memory.cells.size⟩ after := by
  have hdefined {atom : Atom} (hrun : (do
      let _ ← define name (.atom atom)
      giveIds 1 : Eval Unit) ctx m = (.ok (), after)) :
      JustBound name ⟨m.env.memory.cells.size⟩ after := by
    obtain ⟨slot, between, hdefine, hgive⟩ := andThen_ok hrun
    cases hgive
    obtain ⟨⟨stack, hfree, hscopes⟩, rfl⟩ := define_justBound hdefine
    exact ⟨stack, hfree, hscopes⟩
  cases header with
  | function signature =>
    cases hname
    exact hdefined hrun
  | procedure name =>
    cases hname
    exact hdefined hrun
  | classNamed name => cases hname

theorem Declares.justBound (h : Declares ctx name m operand after) :
    ∃ slot, operand = .reference slot ∧ JustBound name slot after := by
  cases h with
  | statement hname hrun => exact evalExpr_justBound hname hrun
  | header hname hrun => exact ⟨_, rfl, declareHeader_justBound hname hrun⟩
  | shared hrun =>
    obtain ⟨⟨⟩, between, hbind, hrest⟩ := andThen_ok hrun
    cases hrest
    exact ⟨_, rfl, bind_justBound hbind⟩
  | fresh hrun =>
    obtain ⟨slot, between, hdefine, hrest⟩ := andThen_ok hrun
    cases hrest
    obtain ⟨hbound, rfl⟩ := define_justBound hdefine
    exact ⟨_, rfl, hbound⟩

/-- Names that are bound in the innermost scope stay bound there, and that scope is still the innermost
one. -/
structure StaysInnermost (m later : Machine) : Prop where
  bound : m.KeepsBound m.env.scopes.inner.length later
  depth : later.env.scopes.inner.length = m.env.scopes.inner.length

theorem StaysInnermost.refl (m : Machine) : StaysInnermost m m := ⟨KeepsBound.chains.refl m, rfl⟩

theorem JustBound.lookup (h : JustBound name slot after) {later : Machine}
    (hstays : StaysInnermost after later) : later.env.scopes.lookup name = some slot := by
  have hslot := hstays.bound _ _ (Nat.le_refl _) h.slotOf
  rw [← hstays.depth, ScopeStack.slotOf_current] at hslot
  exact ScopeStack.lookup_current hslot

/-- A declared name is bound to the slot of the declaration, but it stands for that slot exactly if
it is no type keyword; a keyword goes on standing for its type. From then on, as long as nothing
opens or closes a scope, the name can be read, assigned and passed by reference, and all this
concerns that slot. -/
theorem declared_name_resolves (h : Declares ctx name m operand after) :
    ∃ slot, operand = .reference slot ∧ JustBound name slot after ∧
      (resolve after name = operand ↔ DataType.ofKeyword? name = none) ∧
      (∀ type, DataType.ofKeyword? name = some type → ∀ later,
        resolve later name = .ofValue (.atom (.typeName type))) ∧
      (DataType.ofKeyword? name = none → ∀ later ctx, StaysInnermost after later →
        evalExpr (.identifier name) ctx later = (.ok (.reference slot), later) ∧
        (voidIn? later (.reference slot) = none →
          evalValue (.identifier name) ctx later = (.ok (later.env.load slot), later)) ∧
        (∀ op value, op.isAssignment = true →
          evalExpr (.binary op (.identifier name) value) ctx later =
            (holding [.slot slot] (valueBy (evalExpr value)) >>= assignSource op (.reference slot))
              ctx later) ∧
        (∀ function position (param : Parameter), param.byReference = true →
          param.type = .void ∨ param.type = typeIn later (.reference slot) →
            evalArguments [.identifier name] ctx later = (.ok [.reference slot], later) ∧
            boundFor later function position param (.reference slot) = .ok (.shared slot))) := by
  obtain ⟨slot, rfl, hbound⟩ := h.justBound
  have hkeyword (type : DataType) (htype : DataType.ofKeyword? name = some type) (later : Machine) :
      resolve later name = .ofValue (.atom (.typeName type)) := by
    unfold resolve
    rw [htype]
  refine ⟨slot, rfl, hbound, ⟨fun hresolve => ?_, fun hnone => ?_⟩, hkeyword, ?_⟩
  · cases htype : DataType.ofKeyword? name with
    | none => rfl
    | some type =>
      rw [hkeyword type htype] at hresolve
      cases hresolve
  · exact resolve_bound hnone (hbound.lookup (.refl after))
  · intro hnone later ctx hstays
    have hresolve := resolve_bound hnone (hbound.lookup hstays)
    have hname := identifier_apply hresolve ctx
    refine ⟨hname, fun hvalue => valueBy_ok hname hvalue,
      fun op value hop => assignment_apply hresolve hop value ctx, ?_⟩
    intro function position param hreference htype
    constructor
    · rw [evalArguments, andThen_apply_ok hname]
      rfl
    · unfold boundFor
      dsimp only
      rw [hreference]
      dsimp only
      have hfits : (param.type == .void || param.type == typeIn later (.reference slot)) = true := by
        simpa using htype
      rw [if_pos hfits]

/-- A new interpreter. -/
def fresh : Machine := .initial .standard (.shelf ⟨[]⟩)

/-- After `int n = 5` the name stands for the new variable. -/
theorem number_resolves :
    let ctx := Session.context .none 1 []
    let expr : Expr := .binary .assign (.declare .int "n") (.literal (.int 5))
    let after := (evalExpr expr ctx fresh).2
    Declares ctx "n" fresh (.reference ⟨0⟩) after ∧ resolve after "n" = .reference ⟨0⟩ := by
  intro ctx expr after
  have hrun : evalExpr expr ctx fresh = (.ok (.reference ⟨0⟩), after) := rfl
  have hdeclares : Declares ctx "n" fresh (.reference ⟨0⟩) after := .statement rfl hrun
  obtain ⟨-, -, -, hresolves, -⟩ := declared_name_resolves hdeclares
  exact ⟨hdeclares, hresolves.mpr rfl⟩

/-- `int int = 5` declares a variable, and `int` goes on standing for the type. -/
theorem keyword_declared_unread :
    let ctx := Session.context .none 1 []
    let expr : Expr := .binary .assign (.declare .int "int") (.literal (.int 5))
    let after := (evalExpr expr ctx fresh).2
    ((Lexed.ofLine "int int = 5").toOption.map fun lexed => (Expr.parse lexed.tokens).toOption) =
        some (some expr) ∧
      Declares ctx "int" fresh (.reference ⟨0⟩) after ∧
      after.env.scopes.lookup "int" = some ⟨0⟩ ∧ after.env.load ⟨0⟩ = .int 5 ∧
      resolve after "int" = .ofValue (.atom (.typeName .int)) ∧
      resolve after "int" ≠ .reference ⟨0⟩ := by
  intro ctx expr after
  have hrun : evalExpr expr ctx fresh = (.ok (.reference ⟨0⟩), after) := rfl
  refine ⟨?_, .statement rfl hrun, rfl, rfl, rfl, ?_⟩
  · cbv
  · intro h
    cases h

end Eval

end BuildScript
