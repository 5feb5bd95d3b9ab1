import BuildScript.Proofs.Scopes.Levels

/-!
The scopes of the innermost call. What lies above the scope of a call are blocks, which let a search
for a name through; the scope of the call itself lets it on to the global names only.
-/

namespace BuildScript.ScopeStack

variable {stack a b : ScopeStack} {scope : Scope} {blocks below : List Scope} {global : Bindings}
  {level : Nat} {name : String}

/-- The innermost call has its scope on top of the first so many, itself included; outside of all
calls there are none. Above it are blocks only. -/
def CallAt (level : Nat) (stack : ScopeStack) : Prop :=
  ∃ blocks below, stack.inner = blocks ++ below ∧ below.length = level ∧
    (∀ scope ∈ blocks, scope.isolated = false) ∧ ∀ scope ∈ below.head?, scope.isolated = true

namespace CallAt

theorem level_le (h : CallAt level stack) : level ≤ stack.inner.length := by
  obtain ⟨blocks, below, hinner, rfl, -, -⟩ := h
  rw [hinner, List.length_append]
  exact Nat.le_add_left _ _

/-- The scope of a call that has just begun. -/
theorem entered (stack : ScopeStack) : CallAt stack.depth (stack.push .call) :=
  ⟨[], _, rfl, rfl, List.forall_mem_nil _, by
    intro scope hscope
    cases hscope
    rfl⟩

theorem push (h : CallAt level stack) (hscope : scope.isolated = false) :
    CallAt level (stack.push scope) := by
  obtain ⟨blocks, below, hinner, hlength, hblocks, hcall⟩ := h
  refine ⟨{ scope with skipping := scope.skipping || stack.current.skipping } :: blocks, below, ?_,
    hlength, List.forall_mem_cons.mpr ⟨hscope, hblocks⟩, hcall⟩
  exact congrArg (List.cons _) hinner

theorem mapCurrent (h : CallAt level stack) {f : Scope → Scope}
    (hf : ∀ scope, (f scope).isolated = scope.isolated) : CallAt level (stack.mapCurrent f) := by
  obtain ⟨inner, global⟩ := stack
  obtain ⟨blocks, below, rfl, hlength, hblocks, hcall⟩ := h
  cases blocks with
  | nil =>
    cases below with
    | nil => exact ⟨[], [], rfl, hlength, hblocks, hcall⟩
    | cons scope rest =>
      refine ⟨[], f scope :: rest, rfl, hlength, hblocks, ?_⟩
      intro found hfound
      cases hfound
      exact (hf scope).trans (hcall scope rfl)
  | cons scope rest =>
    obtain ⟨hscope, hrest⟩ := List.forall_mem_cons.mp hblocks
    refine ⟨f scope :: rest, below, rfl, hlength, List.forall_mem_cons.mpr ⟨?_, hrest⟩, hcall⟩
    exact (hf scope).trans hscope

theorem within (h : CallAt level a) (hwithin : a.Within b) : CallAt level b := by
  cases hwithin with
  | global before after =>
    obtain ⟨blocks, below, hinner, hrest⟩ := h
    exact ⟨blocks, below, hinner, hrest⟩
  | @inner before after hkeeps rest global =>
    have hmapped := @mapCurrent ⟨before :: rest, global⟩ level h
      (fun scope => { after with isolated := scope.isolated }) fun _ => rfl
    have hafter : { after with isolated := before.isolated } = after := by
      rw [← hkeeps.isolated]
    unfold ScopeStack.mapCurrent at hmapped
    dsimp only at hmapped
    rwa [hafter] at hmapped

theorem without (h : CallAt level stack) {count : Nat}
    (hcount : level + count ≤ stack.inner.length) : CallAt level (stack.without count) := by
  obtain ⟨blocks, below, hinner, rfl, hblocks, hcall⟩ := h
  rw [hinner, List.length_append] at hcount
  refine ⟨blocks.drop count, below, ?_, rfl, ?_, hcall⟩
  · show stack.inner.drop count = _
    rw [hinner, List.drop_append_of_le_length (by omega)]
  · exact fun scope hscope => hblocks scope (List.mem_of_mem_drop hscope)

theorem opened (h : CallAt level stack) : CallAt level stack.opened := by
  unfold ScopeStack.opened
  split
  · exact h.mapCurrent fun _ => rfl
  · exact h.push rfl

theorem singles (h : CallAt level stack) {base : Nat} (hbase : level < base) :
    CallAt level (stack.without (Run.openSingles base stack.inner)) := by
  have hle := openSingles_le base stack.inner
  have hlevel := h.level_le
  exact h.without (by omega)

theorem pop (h : CallAt level stack) (hdepth : level + 1 < stack.depth) :
    CallAt level stack.pop.2 := by
  obtain ⟨inner, global⟩ := stack
  cases inner with
  | nil => exact h
  | cons scope rest =>
    have hone : level + 1 ≤ (scope :: rest).length := by
      simp only [depth, List.length_cons] at hdepth ⊢
      omega
    exact h.without hone

end CallAt

/-- A search goes through blocks that do not bind the name. -/
theorem lookupFrom_blocks (hblocks : ∀ scope ∈ blocks, scope.isolated = false)
    (hfree : ∀ scope ∈ blocks, lookupName name scope.bindings = none) :
    lookupFrom global name (blocks ++ below) = lookupFrom global name below := by
  induction blocks with
  | nil => rfl
  | cons scope rest ih =>
    obtain ⟨hscope, hrest⟩ := List.forall_mem_cons.mp hblocks
    obtain ⟨hnone, hothers⟩ := List.forall_mem_cons.mp hfree
    rw [List.cons_append, lookupFrom, hnone, hscope]
    exact ih hrest hothers

theorem slotOf_cons {rest : List Scope} :
    slotOf ⟨scope :: rest, global⟩ ⟨level, name⟩ =
      if level = rest.length + 1 then lookupName name scope.bindings
      else slotOf ⟨rest, global⟩ ⟨level, name⟩ := by
  unfold slotOf
  rw [bindingsAt_cons]
  split <;> rfl

/-- Names in the lower scopes are found below the blocks. -/
theorem slotOf_blocks (h : level ≤ below.length) :
    slotOf ⟨blocks ++ below, global⟩ ⟨level, name⟩ = slotOf ⟨below, global⟩ ⟨level, name⟩ := by
  induction blocks with
  | nil => rfl
  | cons scope rest ih =>
    have hlevel : level ≠ (rest ++ below).length + 1 := by
      rw [List.length_append]
      omega
    rw [List.cons_append, slotOf_cons, if_neg hlevel]
    exact ih

/-- A name that is bound above the scope of the call is bound in a block. -/
theorem block_of_slotOf {slot : Slot} (habove : below.length < level)
    (hbound : slotOf ⟨blocks ++ below, global⟩ ⟨level, name⟩ = some slot) :
    ∃ scope ∈ blocks, lookupName name scope.bindings ≠ none := by
  induction blocks with
  | nil =>
    unfold slotOf at hbound
    rw [List.nil_append, bindingsAt_above ⟨below, global⟩ habove] at hbound
    cases hbound
  | cons scope rest ih =>
    rw [List.cons_append, slotOf_cons] at hbound
    split at hbound
    · refine ⟨scope, List.mem_cons_self, ?_⟩
      rw [hbound]
      exact Option.some_ne_none slot
    · obtain ⟨other, hmem, hother⟩ := ih hbound
      exact ⟨other, List.mem_cons_of_mem scope hmem, hother⟩

/-- A name that some block binds is found in the innermost one that does. -/
theorem lookupFrom_block (hblocks : ∀ scope ∈ blocks, scope.isolated = false)
    (hbound : ∃ scope ∈ blocks, lookupName name scope.bindings ≠ none) :
    ∃ level slot, below.length < level ∧ level ≤ (blocks ++ below).length ∧
      slotOf ⟨blocks ++ below, global⟩ ⟨level, name⟩ = some slot ∧
        lookupFrom global name (blocks ++ below) = some slot := by
  induction blocks with
  | nil =>
    obtain ⟨scope, hscope, -⟩ := hbound
    cases hscope
  | cons scope rest ih =>
    obtain ⟨hscope, hrest⟩ := List.forall_mem_cons.mp hblocks
    cases hfound : lookupName name scope.bindings with
    | some slot =>
      refine ⟨(rest ++ below).length + 1, slot, ?_, Nat.le_refl _, ?_, ?_⟩
      · rw [List.length_append]
        omega
      · rw [List.cons_append, slotOf_cons, if_pos rfl]
        exact hfound
      · rw [List.cons_append, lookupFrom, hfound]
    | none =>
      have hinside : ∃ scope ∈ rest, lookupName name scope.bindings ≠ none := by
        obtain ⟨other, hmem, hother⟩ := hbound
        rcases List.mem_cons.mp hmem with rfl | hmem
        · exact absurd hfound hother
        · exact ⟨other, hmem, hother⟩
      obtain ⟨level, slot, hlevel, hopen, hslot, hlookup⟩ := ih hrest hinside
      refine ⟨level, slot, hlevel, Nat.le_succ_of_le hopen, ?_, ?_⟩
      · rw [List.cons_append, slotOf_cons, if_neg (by omega)]
        exact hslot
      · rw [List.cons_append, lookupFrom, hfound, hscope]
        exact hlookup

/-- A name that no block of the innermost call binds is one of the call or a global one. -/
theorem CallAt.lookup_free (h : CallAt level stack)
    (hfree : ∀ above, level < above → stack.slotOf ⟨above, name⟩ = none) :
    stack.lookup name = (stack.slotOf ⟨level, name⟩).or (stack.slotOf ⟨0, name⟩) := by
  obtain ⟨inner, global⟩ := stack
  obtain ⟨blocks, below, rfl, rfl, hblocks, hcall⟩ := h
  have hnone : ∀ scope ∈ blocks, lookupName name scope.bindings = none := by
    intro scope hscope
    cases hbound : lookupName name scope.bindings with
    | none => rfl
    | some slot =>
      have hbinds : lookupName name scope.bindings ≠ none := by
        rw [hbound]
        exact Option.some_ne_none slot
      obtain ⟨above, found, habove, -, hslot, -⟩ := @lookupFrom_block blocks below global name hblocks
        ⟨scope, hscope, hbinds⟩
      rw [hfree above habove] at hslot
      cases hslot
  show lookupFrom global name (blocks ++ below) = _
  rw [lookupFrom_blocks hblocks hnone, slotOf_blocks (Nat.le_refl _), slotOf_blocks (Nat.zero_le _)]
  cases below with
  | nil =>
    show lookupName name global = (lookupName name global).or (lookupName name global)
    cases lookupName name global <;> rfl
  | cons scope rest =>
    rw [slotOf_cons, List.length_cons, if_pos rfl, lookupFrom, hcall scope rfl]
    cases lookupName name scope.bindings <;> rfl

/-- A name that some block of the innermost call binds is found in a block. -/
theorem CallAt.lookup_block (h : CallAt level stack) {above : Nat} {slot : Slot}
    (habove : level < above) (hbound : stack.slotOf ⟨above, name⟩ = some slot) :
    ∃ nearest found, level < nearest ∧ stack.slotOf ⟨nearest, name⟩ = some found ∧
      stack.lookup name = some found := by
  obtain ⟨inner, global⟩ := stack
  obtain ⟨blocks, below, rfl, rfl, hblocks, -⟩ := h
  obtain ⟨nearest, found, hnearest, -, hslot, hlookup⟩ :=
    lookupFrom_block hblocks (block_of_slotOf habove hbound)
  exact ⟨nearest, found, hnearest, hslot, hlookup⟩

end BuildScript.ScopeStack
