import BuildScript.Proofs.Program.Units

/-!
Where a statement stands in the scope stack. A nest is the stack up to the innermost block, or up to
where the lines began; above it lie only the bodies of single statements, which a finished statement
closes all at once.
-/

namespace BuildScript

/-- A stack with more scopes above it, innermost first. -/
def ScopeStack.over (nest : ScopeStack) (above : List Scope) : ScopeStack :=
  ⟨above ++ nest.inner, nest.global⟩

/-- The same machine but for its line and for what the last `if` did. -/
def Machine.Like (m m' : Machine) : Prop :=
  ∃ line outcome, m' = { m with line, lastIf := outcome }

namespace Machine.Like

variable {a b c m m' : Machine}

theorem refl (m : Machine) : m.Like m := ⟨m.line, m.lastIf, rfl⟩

theorem symm (h : a.Like b) : b.Like a := by
  obtain ⟨line, outcome, rfl⟩ := h
  exact ⟨a.line, a.lastIf, rfl⟩

theorem trans (h : a.Like b) (h' : b.Like c) : a.Like c := by
  obtain ⟨line, outcome, rfl⟩ := h
  obtain ⟨line', outcome', rfl⟩ := h'
  exact ⟨line', outcome', rfl⟩

theorem scopes (h : m.Like m') : m'.env.scopes = m.env.scopes := by
  obtain ⟨line, outcome, rfl⟩ := h
  rfl

theorem withScopes (h : m.Like m') (stack : ScopeStack) :
    (m.withScopes stack).Like (m'.withScopes stack) := by
  obtain ⟨line, outcome, rfl⟩ := h
  exact ⟨line, outcome, rfl⟩

theorem mapScopes (h : m.Like m') (f : ScopeStack → ScopeStack) :
    (m.mapScopes f).Like (m'.mapScopes f) := by
  obtain ⟨line, outcome, rfl⟩ := h
  exact ⟨line, outcome, rfl⟩

theorem place (m : Machine) (line : Nat) (outcome : Option Bool) :
    m.Like { m with line, lastIf := outcome } := ⟨line, outcome, rfl⟩

end Machine.Like

theorem Machine.withScopes_scopes (m : Machine) (stack : ScopeStack) :
    (m.withScopes stack).env.scopes = stack := rfl

theorem Machine.withScopes_eq {m : Machine} {stack : ScopeStack} (h : m.env.scopes = stack) :
    m.withScopes stack = m := by
  subst h
  rfl

namespace Program

variable {base : Nat} {ctx : Context} {m : Machine} {nest : ScopeStack} {above : List Scope}

/-- The scopes that no finished statement above them closes. -/
structure Nest (base : Nat) (nest : ScopeStack) : Prop where
  above : base ≤ nest.depth
  stops : nest.depth = base ∨ nest.current.singleLine = false
  settled : nest.current.awaitingBody = false

/-- What an `else` after some bodies of single statements may conclude, given what the statement
inside the innermost one said. -/
def through (above : List Scope) (outcome : Option Bool) : Option Bool :=
  above.foldl (fun outcome scope => Run.outcomeThrough scope.state outcome) outcome

theorem through_some_true (above : List Scope) : through above (some true) = some true := by
  induction above with
  | nil => rfl
  | cons scope rest ih =>
    have hscope : Run.outcomeThrough scope.state (some true) = some true := by
      cases scope.state <;> rfl
    show through rest (Run.outcomeThrough scope.state (some true)) = some true
    rw [hscope, ih]

/-- A skipped body around an `if` leaves nothing to an `else` after that `if`. -/
theorem through_skipped (outcome : Bool)
    (hskipped : ∃ scope ∈ above, scope.state.isSkipped = true) :
    through above (some outcome) = some true := by
  induction above generalizing outcome with
  | nil =>
    obtain ⟨scope, hmem, -⟩ := hskipped
    cases hmem
  | cons scope rest ih =>
    show through rest (Run.outcomeThrough scope.state (some outcome)) = some true
    cases hstate : scope.state with
    | skippedIf => exact through_some_true rest
    | skippedElse => exact through_some_true rest
    | _ =>
      obtain ⟨other, hmem, hother⟩ := hskipped
      have hrest : ∃ scope ∈ rest, scope.state.isSkipped = true := by
        rcases List.mem_cons.mp hmem with rfl | hmem
        · rw [hstate] at hother
          cases hother
        · exact ⟨other, hmem, hother⟩
      exact ih _ hrest

/-- The body of a single statement that runs. -/
structure Live (scope : Scope) : Prop where
  singleLine : scope.singleLine = true
  running : scope.skipping = false
  state : scope.state = .ifBody ∨ scope.state = .elseBody

theorem through_live (hlive : ∀ scope ∈ above, Live scope) (outcome : Bool) :
    through above (some outcome) = some outcome := by
  induction above with
  | nil => rfl
  | cons scope rest ih =>
    have hscope : Run.outcomeThrough scope.state (some outcome) = some outcome := by
      rcases (hlive scope List.mem_cons_self).state with hstate | hstate <;> rw [hstate] <;> rfl
    show through rest (Run.outcomeThrough scope.state (some outcome)) = some outcome
    rw [hscope]
    exact ih fun scope hmem => hlive scope (List.mem_cons_of_mem _ hmem)

theorem closeSingles_over (hnest : Nest base nest)
    (hsingle : ∀ scope ∈ above, scope.singleLine = true) (outcome : Option Bool) (closed : Nat) :
    Run.closeSingles base outcome (above ++ nest.inner) closed =
      (through above outcome, closed + above.length) := by
  induction above generalizing outcome closed with
  | nil =>
    obtain ⟨inner, names⟩ := nest
    cases inner with
    | nil => rfl
    | cons scope rest =>
      have hstop : (decide (rest.length + 2 > base) && scope.singleLine) = false := by
        rcases hnest.stops with hdepth | hblock
        · have hle : ¬rest.length + 2 > base := by
            rw [← hdepth]
            exact Nat.lt_irrefl _
          rw [decide_eq_false hle, Bool.false_and]
        · rw [show scope.singleLine = false from hblock, Bool.and_false]
      show Run.closeSingles base outcome (scope :: rest) closed = _
      unfold Run.closeSingles
      rw [hstop]
      rfl
  | cons scope rest ih =>
    have hbase := hnest.above
    unfold ScopeStack.depth at hbase
    have hgo : (decide ((rest ++ nest.inner).length + 2 > base) && scope.singleLine) = true := by
      rw [hsingle scope List.mem_cons_self, Bool.and_true, List.length_append]
      exact decide_eq_true (by omega)
    show Run.closeSingles base outcome (scope :: (rest ++ nest.inner)) closed = _
    unfold Run.closeSingles
    rw [if_pos hgo, ih fun scope hmem => hsingle scope (List.mem_cons_of_mem _ hmem)]
    rw [List.length_cons, Nat.add_assoc, Nat.add_comm 1]
    rfl

theorem without_over (nest : ScopeStack) (above : List Scope) :
    (nest.over above).without above.length = nest := by
  unfold ScopeStack.without ScopeStack.over
  dsimp only
  rw [List.drop_left]

theorem truncate_over (nest : ScopeStack) (above : List Scope) :
    (nest.over above).truncate nest.depth = nest := by
  have hdrop : (nest.over above).depth - max nest.depth 1 = above.length := by
    unfold ScopeStack.depth ScopeStack.over
    rw [List.length_append]
    omega
  unfold ScopeStack.truncate
  rw [hdrop]
  exact without_over nest above

/-- A finished statement returns to the nest. -/
theorem finished_over (hnest : Nest base nest)
    (hsingle : ∀ scope ∈ above, scope.singleLine = true)
    (hscopes : m.env.scopes = nest.over above) (outcome : Option Bool) :
    finished base outcome m = { m.withScopes nest with lastIf := through above outcome } := by
  have hclose : Run.closeSingles base outcome m.env.scopes.inner 0 =
      (through above outcome, above.length) := by
    rw [hscopes]
    show Run.closeSingles base outcome (above ++ nest.inner) 0 = _
    rw [closeSingles_over hnest hsingle, Nat.zero_add]
  have hwithout : m.env.scopes.without above.length = nest := by
    rw [hscopes, without_over]
  unfold finished
  rw [hclose]
  dsimp only
  unfold Machine.mapScopes
  dsimp only
  rw [hwithout]
  rfl

/-- The scopes above a nest once an item began in the innermost one. -/
def settle : List Scope → List Scope
  | [] => []
  | scope :: rest => { scope with awaitingBody := false } :: rest

theorem begun_over (hnest : Nest base nest) (above : List Scope) :
    (nest.over above).begun = nest.over (settle above) := by
  cases above with
  | nil => exact ScopeStack.begun_eq hnest.settled
  | cons scope rest => rfl

theorem through_settle (above : List Scope) (outcome : Option Bool) :
    through (settle above) outcome = through above outcome := by
  cases above <;> rfl

theorem settle_single (hsingle : ∀ scope ∈ above, scope.singleLine = true) :
    ∀ scope ∈ settle above, scope.singleLine = true := by
  cases above with
  | nil => exact hsingle
  | cons scope rest =>
    intro other hmem
    rcases List.mem_cons.mp hmem with rfl | hmem
    · exact hsingle scope List.mem_cons_self
    · exact hsingle other (List.mem_cons_of_mem _ hmem)

/-- The stack above which nothing closes any more is a nest as long as the scope in which things
happen stays the same. -/
theorem Nest.within {nest' : ScopeStack} (hnest : Nest base nest) (h : nest.Within nest') :
    Nest base nest' := by
  refine ⟨h.depth ▸ hnest.above, ?_, h.current.settled hnest.settled⟩
  rcases hnest.stops with hdepth | hblock
  · exact .inl (h.depth.trans hdepth)
  · have hwaiting : nest.current.isWaiting = false := by
      unfold Scope.isWaiting
      rw [hnest.settled, Bool.and_false]
    exact .inr ((h.current.singleLine hwaiting).trans hblock)

end Program

end BuildScript
