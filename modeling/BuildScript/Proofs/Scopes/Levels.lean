import BuildScript.Proofs.Scopes.Within

/-!
Variables as names in scopes. Scopes are counted from the global one outward, so a variable stays
the same variable whatever is opened and closed above it.
-/

namespace BuildScript

/-- A name in the scope that has this many scopes below it. -/
structure Variable where
  level : Nat
  name : String
  deriving DecidableEq

theorem lookupName_mem {α : Type} {name : String} {entries : List (String × α)} {found : α}
    (h : lookupName name entries = some found) : (name, found) ∈ entries := by
  obtain ⟨⟨other, value⟩, hfind, hvalue⟩ := Option.map_eq_some_iff.mp h
  have hname := List.find?_some hfind
  have hmem := List.mem_of_find?_eq_some hfind
  obtain rfl : other = name := by simpa using hname
  obtain rfl : value = found := hvalue
  exact hmem

theorem lookupName_cons {α : Type} (name other : String) (first : α) (rest : List (String × α)) :
    lookupName name ((other, first) :: rest) =
      if other = name then some first else lookupName name rest := by
  unfold lookupName
  rw [List.find?_cons]
  by_cases hname : other = name
  · rw [if_pos hname, beq_iff_eq.mpr hname]
    rfl
  · rw [if_neg hname, beq_eq_false_iff_ne.mpr hname]

namespace ScopeStack

variable {stack : ScopeStack} {scope : Scope} {x : Variable} {slot : Slot}

/-- What is bound in the scope that has this many scopes below it. -/
def bindingsAt (stack : ScopeStack) : Nat → Bindings
  | 0 => stack.global
  | below + 1 => (stack.inner.reverse[below]?.map (·.bindings)).getD []

/-- The slot of a variable. -/
def slotOf (stack : ScopeStack) (x : Variable) : Option Slot :=
  lookupName x.name (stack.bindingsAt x.level)

theorem bindingsAt_cons (scope : Scope) (rest : List Scope) (global : Bindings) (level : Nat) :
    bindingsAt ⟨scope :: rest, global⟩ level =
      if level = rest.length + 1 then scope.bindings else bindingsAt ⟨rest, global⟩ level := by
  cases level with
  | zero => rfl
  | succ below =>
    simp only [bindingsAt, List.reverse_cons, Nat.add_right_cancel_iff]
    split
    · rename_i hlast
      rw [hlast, ← List.length_reverse, List.getElem?_concat_length]
      rfl
    · rename_i hlast
      by_cases hbelow : below < rest.length
      · rw [List.getElem?_append_left (by simpa using hbelow)]
      · rw [List.getElem?_eq_none, List.getElem?_eq_none]
        · simpa using hbelow
        · simp only [List.length_append, List.length_reverse, List.length_singleton]
          omega

theorem bindingsAt_above (stack : ScopeStack) {level : Nat} (h : stack.inner.length < level) :
    stack.bindingsAt level = [] := by
  cases level with
  | zero => cases h
  | succ below =>
    have hnone : stack.inner.reverse[below]? = none := by
      apply List.getElem?_eq_none
      rw [List.length_reverse]
      omega
    simp only [bindingsAt, hnone]
    rfl

/-- The scopes that remain bind what they bound. -/
theorem bindingsAt_without (stack : ScopeStack) (count level : Nat) :
    (stack.without count).bindingsAt level =
      if level + count ≤ stack.inner.length ∨ level = 0 then stack.bindingsAt level else [] := by
  obtain ⟨inner, global⟩ := stack
  induction count generalizing inner with
  | zero =>
    by_cases hlevel : level ≤ inner.length
    · rw [if_pos (.inl hlevel)]
      rfl
    · rw [if_neg (by dsimp only; omega)]
      exact bindingsAt_above ⟨inner, global⟩ (Nat.lt_of_not_le hlevel)
  | succ count ih =>
    cases inner with
    | nil =>
      cases level with
      | zero => rfl
      | succ below => rfl
    | cons scope rest =>
      have hrest := ih rest
      unfold without at hrest ⊢
      dsimp only at hrest ⊢
      rw [List.drop_succ_cons, hrest, List.length_cons, bindingsAt_cons]
      by_cases hlevel : level + count ≤ rest.length ∨ level = 0
      · rw [if_pos hlevel, if_pos (by omega), if_neg (by omega)]
      · rw [if_neg hlevel, if_neg (by omega)]

/-- A scope that binds nothing yet adds no variable. -/
theorem bindingsAt_push (stack : ScopeStack) (hempty : scope.bindings = []) (level : Nat) :
    (stack.push scope).bindingsAt level = stack.bindingsAt level := by
  unfold push
  rw [bindingsAt_cons]
  split
  · rename_i hlevel
    rw [bindingsAt_above stack (by omega)]
    exact hempty
  · rfl

theorem bindingsAt_mapCurrent (stack : ScopeStack) {f : Scope → Scope}
    (hf : ∀ scope, (f scope).bindings = scope.bindings) (level : Nat) :
    (stack.mapCurrent f).bindingsAt level = stack.bindingsAt level := by
  obtain ⟨inner, global⟩ := stack
  cases inner with
  | nil => rfl
  | cons scope rest =>
    simp only [mapCurrent, bindingsAt_cons, hf]

theorem bindingsAt_addBinding (stack : ScopeStack) (name : String) (slot : Slot) (level : Nat) :
    (stack.addBinding name slot).bindingsAt level =
      if level = stack.inner.length then (name, slot) :: stack.bindingsAt level
      else stack.bindingsAt level := by
  obtain ⟨inner, global⟩ := stack
  cases inner with
  | nil =>
    cases level with
    | zero => rfl
    | succ below => rfl
  | cons scope rest =>
    simp only [addBinding, bindingsAt_cons, List.length_cons]
    split <;> rfl

theorem current_bindings (stack : ScopeStack) :
    stack.current.bindings = stack.bindingsAt stack.inner.length := by
  obtain ⟨inner, global⟩ := stack
  cases inner with
  | nil => rfl
  | cons scope rest =>
    rw [bindingsAt_cons, List.length_cons, if_pos rfl]
    rfl

theorem slotOf_addBinding (stack : ScopeStack) (name : String) (slot : Slot) (x : Variable) :
    (stack.addBinding name slot).slotOf x =
      if x = ⟨stack.inner.length, name⟩ then some slot else stack.slotOf x := by
  obtain ⟨level, other⟩ := x
  unfold slotOf
  rw [bindingsAt_addBinding]
  dsimp only
  by_cases hlevel : level = stack.inner.length
  · rw [if_pos hlevel, lookupName_cons]
    simp [hlevel, eq_comm]
  · rw [if_neg hlevel]
    simp [hlevel]

/-- The innermost scope is the one that has all others below it. -/
theorem slotOf_current (stack : ScopeStack) (name : String) :
    stack.slotOf ⟨stack.inner.length, name⟩ = stack.lookupCurrent name := by
  unfold slotOf lookupCurrent
  rw [current_bindings]

theorem lookupCurrent_addBinding (stack : ScopeStack) (name other : String) (slot : Slot) :
    (stack.addBinding name slot).lookupCurrent other =
      if other = name then some slot else stack.lookupCurrent other := by
  have hlength : (stack.addBinding name slot).inner.length = stack.inner.length :=
    (Within.addBinding stack name slot).length_inner
  rw [← slotOf_current, hlength, slotOf_addBinding, slotOf_current]
  simp

/-- Every binding is that of some scope. -/
theorem mem_slots : slot ∈ stack.slots ↔ ∃ level, ∃ name, (name, slot) ∈ stack.bindingsAt level := by
  constructor
  · intro hslot
    obtain ⟨⟨name, slot⟩, hbinding, rfl⟩ := List.mem_map.mp hslot
    rcases List.mem_append.mp hbinding with hinner | hglobal
    · obtain ⟨scope, hscope, hbinding⟩ := List.mem_flatMap.mp hinner
      obtain ⟨below, hbelow⟩ := List.mem_iff_getElem?.mp (List.mem_reverse.mpr hscope)
      refine ⟨below + 1, name, ?_⟩
      simp only [bindingsAt, hbelow]
      exact hbinding
    · exact ⟨0, name, hglobal⟩
  · rintro ⟨level, name, hbinding⟩
    refine List.mem_map.mpr ⟨(name, slot), ?_, rfl⟩
    cases level with
    | zero => exact List.mem_append_right _ hbinding
    | succ below =>
      apply List.mem_append_left
      simp only [bindingsAt] at hbinding
      cases hscope : stack.inner.reverse[below]? with
      | none =>
        rw [hscope] at hbinding
        cases hbinding
      | some scope =>
        rw [hscope] at hbinding
        have hmem := List.mem_reverse.mp (List.mem_of_getElem? hscope)
        exact List.mem_flatMap.mpr ⟨scope, hmem, hbinding⟩

theorem slotOf_mem (h : stack.slotOf x = some slot) : slot ∈ stack.slots :=
  mem_slots.mpr ⟨x.level, x.name, lookupName_mem h⟩

/-- A name that is found is found in some scope. -/
theorem lookupFrom_level {global : Bindings} {name : String} {scopes : List Scope}
    (h : lookupFrom global name scopes = some slot) :
    ∃ level, slotOf ⟨scopes, global⟩ ⟨level, name⟩ = some slot := by
  induction scopes with
  | nil => exact ⟨0, h⟩
  | cons scope rest ih =>
    unfold lookupFrom at h
    split at h
    · rename_i found hfound
      cases h
      refine ⟨rest.length + 1, ?_⟩
      unfold slotOf
      rw [bindingsAt_cons, if_pos rfl]
      exact hfound
    · split at h
      · exact ⟨0, h⟩
      · obtain ⟨level, hlevel⟩ := ih h
        have hbound : level ≠ rest.length + 1 := by
          rintro rfl
          unfold slotOf at hlevel
          rw [bindingsAt_above ⟨rest, global⟩ (Nat.lt_succ_self _)] at hlevel
          cases hlevel
        refine ⟨level, ?_⟩
        unfold slotOf at hlevel ⊢
        rwa [bindingsAt_cons, if_neg hbound]

/-- A visible name is a variable of some scope. -/
theorem lookup_level {name : String} (h : stack.lookup name = some slot) :
    ∃ level, stack.slotOf ⟨level, name⟩ = some slot := lookupFrom_level h

theorem lookup_mem {name : String} (h : stack.lookup name = some slot) : slot ∈ stack.slots := by
  obtain ⟨level, hlevel⟩ := lookup_level h
  exact slotOf_mem hlevel

end ScopeStack

end BuildScript
