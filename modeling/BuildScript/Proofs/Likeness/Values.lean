import Mathlib
import BuildScript.Eval.Expr

/-!
Values whose functions have other bodies. Nothing an operation does to a value depends on what the
functions and procedures in it would run, so replacing their bodies, and the lines they were declared
on, before an operation or after it comes to the same.
-/

namespace BuildScript

open Text (SourceLine)

/-- What to put in place of a body, given the file it was declared in. -/
abbrev Recast := String → List SourceLine → List SourceLine

/-- One replacement after another. -/
def Recast.after (φ ρ : Recast) : Recast := fun file body => φ file (ρ file body)

variable (ρ : Recast)

def UserFunction.recast (function : UserFunction) : UserFunction :=
  { function with
    body := ρ function.file function.body
    line := 0 }

def Procedure.recast (procedure : Procedure) : Procedure :=
  { procedure with
    body := ρ procedure.file procedure.body
    line := 0 }

def Callable.recast : Callable → Callable
  | .builtin b => .builtin b
  | .native n => .native n
  | .user f => .user (f.recast ρ)

def Callable.recastAll (methods : List (String × Callable)) : List (String × Callable) :=
  methods.map fun (name, method) => (name, method.recast ρ)

def ClassTemplate.recast (template : ClassTemplate) : ClassTemplate :=
  { template with methods := Callable.recastAll ρ template.methods }

def Atom.recast : Atom → Atom
  | .function callable receiver => .function (callable.recast ρ) receiver
  | .procedure p => .procedure (p.recast ρ)
  | .classTemplate template => .classTemplate (template.recast ρ)
  | other => other

namespace Value

mutual

def recast : Value → Value
  | atom a => atom (a.recast ρ)
  | array element items => array element (recastItems items)
  | list items => list (recastItems items)
  | object className fields methods =>
    object className (recastFields fields) (Callable.recastAll ρ methods)

def recastItems : List Value → List Value
  | [] => []
  | item :: rest => recast item :: recastItems rest

def recastFields : List (String × Value) → List (String × Value)
  | [] => []
  | (name, value) :: rest => (name, recast value) :: recastFields rest

end

variable {ρ}

@[simp]
theorem recastItems_eq (items : List Value) : recastItems ρ items = items.map (recast ρ) := by
  induction items with
  | nil => rfl
  | cons item rest ih => simp [recastItems, ih]

@[simp]
theorem recastFields_eq (fields : List (String × Value)) :
    recastFields ρ fields = fields.map fun (name, value) => (name, value.recast ρ) := by
  induction fields with
  | nil => rfl
  | cons field rest ih => simp [recastFields, ih]

end Value

variable {ρ}

/-! Replacing what was put in place of bodies is replacing the bodies. -/

section

variable (φ : Recast)

theorem UserFunction.recast_recast (function : UserFunction) :
    (function.recast ρ).recast φ = function.recast (φ.after ρ) :=
  rfl

theorem Procedure.recast_recast (procedure : Procedure) :
    (procedure.recast ρ).recast φ = procedure.recast (φ.after ρ) :=
  rfl

@[simp]
theorem Callable.recast_recast (callable : Callable) :
    (callable.recast ρ).recast φ = callable.recast (φ.after ρ) := by
  cases callable <;> rfl

@[simp]
theorem Callable.recastAll_recastAll (methods : List (String × Callable)) :
    recastAll φ (recastAll ρ methods) = recastAll (φ.after ρ) methods := by
  simp [recastAll]

@[simp]
theorem Atom.recast_recast (a : Atom) : (a.recast ρ).recast φ = a.recast (φ.after ρ) := by
  cases a with
  | function callable receiver => simp [recast]
  | classTemplate template => simp [recast, ClassTemplate.recast]
  | _ => rfl

mutual

theorem Value.recast_recast : (v : Value) → (v.recast ρ).recast φ = v.recast (φ.after ρ)
  | .atom a => by simp [recast]
  | .array element items => by
    simp only [recast, Value.recastItems_recastItems items]
  | .list items => by
    simp only [recast, Value.recastItems_recastItems items]
  | .object className fields methods => by
    simp only [recast, Value.recastFields_recastFields fields, Callable.recastAll_recastAll]

theorem Value.recastItems_recastItems : (items : List Value) →
    recastItems φ (recastItems ρ items) = recastItems (φ.after ρ) items
  | [] => rfl
  | item :: rest => by
    simp only [recastItems, Value.recast_recast item, Value.recastItems_recastItems rest]

theorem Value.recastFields_recastFields : (fields : List (String × Value)) →
    recastFields φ (recastFields ρ fields) = recastFields (φ.after ρ) fields
  | [] => rfl
  | (name, value) :: rest => by
    simp only [recastFields, Value.recast_recast value, Value.recastFields_recastFields rest]

end

end

@[simp]
theorem Callable.name_recast (callable : Callable) : (callable.recast ρ).name = callable.name := by
  cases callable <;> rfl

@[simp]
theorem Callable.same_recast (a b : Callable) : (a.recast ρ).same (b.recast ρ) = a.same b := by
  cases a <;> cases b <;> rfl

theorem lookupName_map {α β : Type} (f : α → β) (name : String) (entries : List (String × α)) :
    lookupName name (entries.map fun (key, value) => (key, f value)) =
      (lookupName name entries).map f := by
  induction entries with
  | nil => rfl
  | cons entry rest ih =>
    unfold lookupName at ih ⊢
    by_cases h : entry.1 == name <;> simp_all

namespace Atom

@[simp]
theorem type_recast (a : Atom) : (a.recast ρ).type = a.type := by
  cases a <;> rfl

@[simp]
theorem text_recast (a : Atom) : (a.recast ρ).text = a.text := by
  cases a <;> simp [recast, text, Procedure.recast, ClassTemplate.recast]

@[simp]
theorem same_recast (a b : Atom) : (a.recast ρ).same (b.recast ρ) = a.same b := by
  cases a <;> cases b <;> simp [recast, same, Procedure.recast, ClassTemplate.recast]

theorem convertNumber_recast (a : Atom) (target : DataType) :
    (a.recast ρ).convertNumber target = (a.convertNumber target).map (recast ρ) := by
  cases a with
  | float x =>
    cases target with
    | int => cases h : Integer.ofSingle x <;> simp [recast, convertNumber, h, Except.map]
    | _ => rfl
  | _ => cases target <;> rfl

end Atom

namespace Value

@[simp]
theorem type_recast (v : Value) : (v.recast ρ).type = v.type := by
  cases v <;> simp [recast, type]

@[simp]
theorem text?_recast (v : Value) : (v.recast ρ).text? = v.text? := by
  cases v with
  | atom a => cases a <;> rfl
  | _ => rfl

@[simp]
theorem size?_recast (v : Value) : (v.recast ρ).size? = v.size? := by
  cases v with
  | atom a => cases a <;> rfl
  | _ => simp [recast, size?]

@[simp]
theorem ofValue?_recast (v : Value) : Numeric.ofValue? (v.recast ρ) = Numeric.ofValue? v := by
  cases v with
  | atom a => cases a <;> rfl
  | _ => rfl

@[simp]
theorem bits?_recast (v : Value) : Operation.bits? (v.recast ρ) = Operation.bits? v := by
  cases v with
  | atom a => cases a <;> rfl
  | _ => rfl

mutual

@[simp]
theorem text_recast : (v : Value) → (v.recast ρ).text = v.text
  | atom a => a.text_recast
  | array _ items | list items => by
    simp only [recast, text, itemTexts_recast items]
  | object _ fields _ => by
    simp only [recast, text, fieldTexts_recast fields]

theorem itemTexts_recast : (items : List Value) →
    itemTexts (recastItems ρ items) = itemTexts items
  | [] => rfl
  | item :: rest => by
    simp only [recastItems, itemTexts, text_recast item, itemTexts_recast rest]

theorem fieldTexts_recast : (fields : List (String × Value)) →
    fieldTexts (recastFields ρ fields) = fieldTexts fields
  | [] => rfl
  | (name, value) :: rest => by
    simp only [recastFields, fieldTexts, text_recast value, fieldTexts_recast rest]

end

mutual

@[simp]
theorem same_recast : (v w : Value) → (v.recast ρ).same (w.recast ρ) = v.same w
  | atom a, atom b => a.same_recast b
  | array _ xs, array _ ys | list xs, list ys => by
    simp only [recast, same, sameItems_recast xs ys]
  | object _ fs _, object _ gs _ => by
    simp only [recast, same, sameFields_recast fs gs]
  | atom _, array _ _ | atom _, list _ | atom _, object _ _ _ | array _ _, atom _ | array _ _, list _
  | array _ _, object _ _ _ | list _, atom _ | list _, array _ _ | list _, object _ _ _
  | object _ _ _, atom _ | object _ _ _, array _ _ | object _ _ _, list _ => by simp [recast, same]

theorem sameItems_recast : (xs ys : List Value) →
    sameItems (recastItems ρ xs) (recastItems ρ ys) = sameItems xs ys
  | [], [] | [], _ :: _ | _ :: _, [] => by simp [recastItems, sameItems]
  | x :: xs, y :: ys => by
    simp only [recastItems, sameItems, same_recast x y, sameItems_recast xs ys]

theorem sameFields_recast : (fs gs : List (String × Value)) →
    sameFields (recastFields ρ fs) (recastFields ρ gs) = sameFields fs gs
  | [], [] | [], _ :: _ | _ :: _, [] => by simp [recastFields, sameFields]
  | (_, x) :: fs, (_, y) :: gs => by
    simp only [recastFields, sameFields, same_recast x y, sameFields_recast fs gs]

end

theorem convert_recast (v : Value) (target : DataType) :
    (v.recast ρ).convert target = (v.convert target).map (recast ρ) := by
  unfold convert
  rw [type_recast]
  split
  · cases v with
    | atom a =>
      simp only [recast, Atom.convertNumber_recast]
      cases a.convertNumber target <;> simp [Except.map, recast]
    | array element items => cases items <;> cases target <;> simp [recast, Except.map]
    | _ => simp [recast, Except.map]
  · rfl

theorem require_recast (v : Value) : (v.recast ρ).require = v.require.map (recast ρ) := by
  cases v with
  | atom a => cases a <;> simp [recast, Atom.recast, require, Except.map]
  | _ => simp [recast, require, Except.map]

@[simp]
theorem asBool_recast (v : Value) : (v.recast ρ).asBool = v.asBool := by
  unfold asBool
  rw [convert_recast]
  cases h : v.convert .bool with
  | error e => simp [Except.map]
  | ok w =>
    cases w with
    | atom a => cases a <;> simp [Except.map, recast, Atom.recast, type, Atom.type]
    | _ => simp [Except.map, recast, type]

@[simp]
theorem asInt_recast (v : Value) : (v.recast ρ).asInt = v.asInt := by
  unfold asInt
  rw [convert_recast]
  cases h : v.convert .int with
  | error e => simp [Except.map]
  | ok w =>
    cases w with
    | atom a => cases a <;> simp [Except.map, recast, Atom.recast, type, Atom.type]
    | _ => simp [Except.map, recast, type]

end Value

namespace Operation

variable {op : Operator} {v left right : Value}

/-- The result of an operation, if there is one, has no body in it. -/
def Bodiless (result : Except EvalError Value) : Prop :=
  ∀ ρ : Recast, result.map (Value.recast ρ) = result

theorem invalid_recast (op : Operator) (left right : Value) :
    invalid op (left.recast ρ) (right.recast ρ) = invalid op left right := by
  simp [invalid]

theorem checked_bodiless (n : Option Int32) : Bodiless (checked n) := by
  intro ρ
  cases n <;> rfl

theorem onIntegers_bodiless (op : Operator) (a b : Int32) : Bodiless (onIntegers op a b) := by
  intro ρ
  cases op <;> simp only [onIntegers] <;> (try split) <;>
    first | rfl | exact checked_bodiless _ ρ

theorem onSingles_bodiless (op : Operator) (a b : Float32) : Bodiless (onSingles op a b) := by
  intro ρ
  cases op <;> rfl

theorem arithmetic_bodiless (op : Operator) (left right : Value) :
    Bodiless (arithmetic op left right) := by
  intro ρ
  unfold arithmetic
  split
  · exact onIntegers_bodiless op _ _ ρ
  · exact onSingles_bodiless op _ _ ρ
  · rfl

theorem arithmetic_recast : arithmetic op (left.recast ρ) (right.recast ρ) =
    (arithmetic op left right).map (Value.recast ρ) := by
  rw [arithmetic_bodiless op left right ρ]
  simp [arithmetic, invalid]

theorem ordering_recast : ordering op (left.recast ρ) (right.recast ρ) =
    (ordering op left right).map (Value.recast ρ) := by
  unfold ordering
  simp only [Value.ofValue?_recast, Value.text?_recast, invalid, Value.type_recast]
  split
  · rfl
  · split <;> rfl

theorem equality_recast : equality op (left.recast ρ) (right.recast ρ) =
    (equality op left right).map (Value.recast ρ) := by
  have hequal : equal? (left.recast ρ) (right.recast ρ) = equal? left right := by
    simp [equal?]
  unfold equality
  rw [hequal]
  cases equal? left right <;> simp [Except.map, Value.recast, Atom.recast, invalid]

theorem bitwise_recast : bitwise op (left.recast ρ) (right.recast ρ) =
    (bitwise op left right).map (Value.recast ρ) := by
  have hbits : bitwise op (left.recast ρ) (right.recast ρ) = bitwise op left right := by
    cases left with
    | atom a =>
      cases right with
      | atom b => cases a <;> cases b <;> rfl
      | _ => cases a <;> rfl
    | _ => exact congrArg Except.error (invalid_recast op _ right)
  rw [hbits]
  unfold bitwise
  split
  · rfl
  · split <;> rfl

theorem logic_recast : logic op (left.recast ρ) (right.recast ρ) =
    (logic op left right).map (Value.recast ρ) := by
  unfold logic
  rw [Value.asBool_recast, Value.asBool_recast]
  cases left.asBool <;> cases right.asBool <;> rfl

theorem joinText_recast : joinText (left.recast ρ) (right.recast ρ) =
    (joinText left right).map (Value.recast ρ) := by
  cases left with
  | atom a =>
    cases right with
    | atom b => cases a <;> cases b <;> rfl
    | _ => cases a <;> rfl
  | _ => rfl

theorem concatArrays_recast (s t : DataType) (xs ys : List Value) :
    concatArrays s (xs.map (Value.recast ρ)) t (ys.map (Value.recast ρ)) =
      (concatArrays s xs t ys).map (Value.recast ρ) := by
  unfold concatArrays
  split
  · simp [Except.map, Value.recast]
  · split <;> simp [Except.map, Value.recast]

theorem append?_recast (element : DataType) (items : List Value) (item : Value) :
    append? element (items.map (Value.recast ρ)) (item.recast ρ) =
      (append? element items item).map (Except.map (Value.recast ρ)) := by
  unfold append?
  rw [Value.type_recast, Value.convert_recast]
  split
  · cases item.convert element <;> simp [Except.map, Value.recast]
  · rfl

theorem addToContainer_recast : addToContainer (left.recast ρ) (right.recast ρ) =
    (addToContainer left right).map (Value.recast ρ) := by
  cases left with
  | array element xs =>
    have happend := @append?_recast ρ element xs right
    simp only [Value.recast, Value.recastItems_eq, addToContainer]
    rw [happend]
    cases append? element xs right with
    | some result => rfl
    | none =>
      cases right with
      | array t ys =>
        simp only [Value.recast, Value.recastItems_eq, Option.map_none]
        exact concatArrays_recast _ _ _ _
      | atom a =>
        simp only [Value.recast, Option.map_none]
        split <;> simp [Except.map, Value.recast, Value.type]
      | list items =>
        simp only [Value.recast, Option.map_none]
        split <;> simp [Except.map, Value.recast, Value.type]
      | object className fields methods =>
        simp only [Value.recast, Option.map_none]
        split <;> simp [Except.map, Value.recast, Value.type]
  | list xs => cases right <;> simp [addToContainer, Value.recast, Except.map]
  | _ => exact congrArg Except.error (invalid_recast .add _ right)

theorem add_recast : add (left.recast ρ) (right.recast ρ) =
    (add left right).map (Value.recast ρ) := by
  unfold add
  rw [joinText_recast]
  cases joinText left right with
  | some joined => rfl
  | none =>
    have hcontainer := @addToContainer_recast ρ left right
    have harithmetic := @arithmetic_recast ρ .add left right
    cases left with
    | atom a => exact harithmetic
    | array element xs => exact hcontainer
    | list xs => exact hcontainer
    | object className fields methods => exact harithmetic

/-- An operator gives the same with other bodies. -/
theorem binary_recast (op : Operator) (left right : Value) :
    binary op (left.recast ρ) (right.recast ρ) = (binary op left right).map (Value.recast ρ) := by
  have hinvalid : (.error (invalid op (left.recast ρ) (right.recast ρ)) : Except EvalError Value) =
      .error (invalid op left right) := by
    rw [invalid_recast]
  cases op with
  | add => exact add_recast
  | subtract | multiply | divide | modulo | power => exact arithmetic_recast
  | less | lessEqual | greater | greaterEqual => exact ordering_recast
  | equal | notEqual => exact equality_recast
  | bitAnd | bitXor | bitOr => simpa only [binary] using bitwise_recast
  | and | or => exact logic_recast
  | _ => exact hinvalid

theorem unary_recast (op : Operator) (v : Value) :
    unary op (v.recast ρ) = (unary op v).map (Value.recast ρ) := by
  have hnot : unary .not (v.recast ρ) = (unary .not v).map (Value.recast ρ) := by
    simp only [unary, Value.type_recast, Value.asBool_recast]
    split
    · cases v.asBool <;> rfl
    · rfl
  cases v with
  | atom a =>
    cases op with
    | not => exact hnot
    | negate => cases a <;> first | rfl | exact (checked_bodiless _ ρ).symm
    | _ => cases a <;> rfl
  | _ =>
    cases op with
    | not => exact hnot
    | _ => rfl

end Operation

namespace Arguments

theorem value_recast (args : List Value) (index : Nat) :
    value (args.map (Value.recast ρ)) index = (value args index).map (Value.recast ρ) := by
  unfold value
  rw [List.getElem?_map]
  cases args[index]? with
  | none => rfl
  | some v => exact v.require_recast

theorem text_recast (function : String) (args : List Value) (index : Nat) :
    text function (args.map (Value.recast ρ)) index = text function args index := by
  unfold text
  rw [value_recast]
  cases value args index with
  | error e => rfl
  | ok v =>
    simp only [bind, Except.bind, Except.map, Value.text?_recast, Value.type_recast]

theorem int_recast (function : String) (args : List Value) (index : Nat) :
    int function (args.map (Value.recast ρ)) index = int function args index := by
  unfold int
  rw [value_recast]
  cases value args index with
  | error e => rfl
  | ok v => simp only [bind, Except.bind, Except.map, Value.asInt_recast, Value.type_recast]

end Arguments

namespace Eval

theorem printedText_recast (args : List Value) :
    printedText (args.map (Value.recast ρ)) = printedText args := by
  unfold printedText
  rw [Arguments.value_recast]
  cases Arguments.value args 0 with
  | error e => rfl
  | ok v =>
    have htext := @Value.text_recast ρ v
    cases v with
    | atom a => cases a <;> first | rfl | exact congrArg Except.ok htext
    | _ => exact congrArg Except.ok htext

theorem arrayOf_recast (values : List Value) :
    arrayOf (values.map (Value.recast ρ)) = (arrayOf values).map (Value.recast ρ) := by
  have hhead : ((values.map (Value.recast ρ)).head?.map (·.type)).getD .void =
      (values.head?.map (·.type)).getD .void := by
    cases values <;> simp
  unfold arrayOf
  dsimp only
  rw [hhead, List.find?_map]
  simp only [Function.comp_def, Value.type_recast]
  cases values.find? _ <;> simp [Except.map, Value.recast]

theorem sizeOf_recast (args : List Value) :
    sizeOf (args.map (Value.recast ρ)) = (sizeOf args).map (Value.recast ρ) := by
  cases args with
  | nil => rfl
  | cons v rest =>
    simp only [List.map_cons, sizeOf, Value.size?_recast, Value.type_recast]
    cases v.size? with
    | none => rfl
    | some n =>
      dsimp only
      generalize Integer.ofCount n = count
      cases count <;> rfl

theorem checkReturn_recast (function : UserFunction) (returned : Option Value) :
    checkReturn (function.recast ρ) (returned.map (Value.recast ρ)) =
      (checkReturn function returned).map (Value.recast ρ) := by
  obtain ⟨id, name, params, type, body, file, line, isMethod⟩ := function
  cases returned with
  | none => cases type <;> rfl
  | some v =>
    have hother : checkReturn ⟨id, name, params, type, ρ file body, file, 0, isMethod⟩
        (some (v.recast ρ)) = checkReturn ⟨id, name, params, type, body, file, line, isMethod⟩
          (some (v.recast ρ)) := by
      cases type <;> rfl
    refine hother.trans ?_
    cases type with
    | void => simp [checkReturn, Except.map]
    | array element =>
      simp only [checkReturn, Value.type_recast]
      split
      · rfl
      · split
        · exact v.convert_recast _
        · rfl
    | _ =>
      simp only [checkReturn, Value.type_recast]
      split <;> rfl

end Eval

end BuildScript
