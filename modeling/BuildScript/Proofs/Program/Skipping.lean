import BuildScript.Proofs.Program.Nesting

/-!
Skipped statements. Nothing is evaluated in them, and whatever they are made of, the stack comes
back to the nest they stand in.
-/

namespace BuildScript.Program

variable {base : Nat} {inFunction : Bool} {ctx : Context} {m : Machine} {nest : ScopeStack}
  {above : List Scope}

/-- A skipped branch that waits for its body. -/
def skippedBranch (state : BlockState) : Scope :=
  { Scope.conditional state with skipping := true }

/-- The scope of a block: a new one, or that of the branch whose body the block is. -/
def blockScope (nest : ScopeStack) : List Scope → Scope
  | [] => { Scope.block with skipping := nest.current.skipping }
  | scope :: _ => { scope with singleLine := false, awaitingBody := false }

/-- The stack with that block open. -/
def blockNest (nest : ScopeStack) (above : List Scope) : ScopeStack :=
  ⟨blockScope nest above :: (above.tail ++ nest.inner), nest.global⟩

/-- If a scope waits above the nest, a brace opens it. -/
def Ready (above : List Scope) : Prop :=
  ∀ scope rest, above = scope :: rest → scope.isWaiting = true

theorem opened_over (hnest : Nest base nest) (hready : Ready above) :
    (nest.over above).opened = blockNest nest above := by
  cases above with
  | nil =>
    have hwaiting : ¬(nest.current.singleLine && nest.current.awaitingBody) = true := by
      rw [hnest.settled, Bool.and_false]
      nofun
    show ScopeStack.opened nest = _
    unfold ScopeStack.opened
    rw [if_neg hwaiting]
    rfl
  | cons scope rest =>
    have hwaiting : (scope.singleLine && scope.awaitingBody) = true := hready scope rest rfl
    show (if (scope.singleLine && scope.awaitingBody) = true then _ else _) = _
    rw [if_pos hwaiting]
    rfl

theorem blockScope_singleLine (nest : ScopeStack) (above : List Scope) :
    (blockScope nest above).singleLine = false := by
  cases above <;> rfl

theorem Nest.block (hnest : Nest base nest) (above : List Scope) :
    Nest base (blockNest nest above) where
  above := by
    have hbase := hnest.above
    unfold ScopeStack.depth blockNest at *
    rw [List.length_cons, List.length_append]
    omega
  stops := .inr (blockScope_singleLine nest above)
  settled := by cases above <;> rfl

/-- A closing brace returns to the nest around its block. -/
theorem drive_close (hnest : Nest base nest)
    (hsingle : ∀ scope ∈ above, scope.singleLine = true) {block : Scope}
    (hscopes : m.env.scopes = ⟨block :: (above.tail ++ nest.inner), nest.global⟩)
    (hblock : block.singleLine = false) (line : Nat) :
    drive base inFunction (line, .blockClose) ctx m =
      (.ok none, { m.withScopes nest with
        line
        lastIf := through above.tail (Run.blockOutcome block.state) }) := by
  have hbase : base < (above.tail ++ nest.inner).length + 2 := by
    have hbase := hnest.above
    unfold ScopeStack.depth at hbase
    rw [List.length_append]
    omega
  have htail : ∀ scope ∈ above.tail, scope.singleLine = true :=
    fun scope hmem => hsingle scope (List.mem_of_mem_tail hmem)
  have hover : ({ m with line }.withScopes ⟨above.tail ++ nest.inner, nest.global⟩).env.scopes =
      nest.over above.tail := rfl
  rw [drive_blockClose hscopes hblock hbase, finished_over hnest htail hover]
  rfl

/-- The bodies of single statements above a nest are skipped, or the nest is. -/
structure Skipped (nest : ScopeStack) (above : List Scope) : Prop where
  single : ∀ scope ∈ above, scope.singleLine = true
  skipping : (nest.over above).current.skipping = true
  origin : nest.current.skipping = true ∨ ∃ scope ∈ above, scope.state.isSkipped = true

theorem Skipped.push (h : Skipped nest above) {state : BlockState}
    (hstate : state.isSkipped = true) :
    Skipped nest (skippedBranch state :: settle above) where
  single := by
    intro scope hmem
    rcases List.mem_cons.mp hmem with rfl | hmem
    · rfl
    · exact settle_single h.single scope hmem
  skipping := rfl
  origin := .inr ⟨_, List.mem_cons_self, hstate⟩

theorem ready_nil : Ready [] := nofun

theorem ready_push (state : BlockState) (skipping : Bool) (above : List Scope) :
    Ready ({ Scope.conditional state with skipping } :: above) := by
  intro scope rest heq
  cases heq
  rfl

theorem driveAll_cons {placed : Placed} {rest : List Placed} {after : Machine}
    (h : drive base inFunction placed ctx m = (.ok none, after)) :
    driveAll base inFunction (placed :: rest) ctx m = driveAll base inFunction rest ctx after :=
  followedBy_none h

theorem driveAll_single {placed : Placed} {after : Machine}
    (h : drive base inFunction placed ctx m = (.ok none, after)) :
    driveAll base inFunction [placed] ctx m = (.ok none, after) :=
  followedBy_none h

theorem driveAll_append_none {first second : List Placed} {after : Machine}
    (h : driveAll base inFunction first ctx m = (.ok none, after)) :
    driveAll base inFunction (first ++ second) ctx m =
      driveAll base inFunction second ctx after := by
  rw [driveAll_append, followedBy_none h]

/-- Skipped items return nothing and leave the machine like it was, back at the nest. -/
def Passes (base : Nat) (inFunction : Bool) (ctx : Context) (nest : ScopeStack) (m : Machine)
    (items : List Placed) (lastIf : Option Bool → Prop) : Prop :=
  ∃ after, driveAll base inFunction items ctx m = (.ok none, after) ∧
    (m.withScopes nest).Like after ∧ lastIf after.lastIf

theorem Passes.scopes {after : Machine} (h : (m.withScopes nest).Like after) :
    after.env.scopes = nest := h.scopes

/-- What a skipped first branch says about the `else` after it. -/
def Says (tree : Tree) (above : List Scope) (lastIf : Option Bool) : Prop :=
  tree.isIf = false → ∀ scope rest, above = scope :: rest → scope.state = .skippedIf →
    lastIf = through rest (some false)

theorem skip_unit (hnest : Nest base nest) {tree : Tree} {item : Item} {line : Nat}
    (hitem : (∃ expr, item = .expression expr) ∨ ∃ expr, item = .giveBack expr)
    (hscopes : m.env.scopes = nest.over above) (hskipped : Skipped nest above) :
    Passes base inFunction ctx nest m [(line, item)] (Says tree above) := by
  have hskipping : m.env.scopes.current.skipping = true := hscopes ▸ hskipped.skipping
  have hbegun : ({ m with line }.mapScopes (·.begun)).env.scopes = nest.over (settle above) := by
    show m.env.scopes.begun = _
    rw [hscopes, begun_over hnest]
  refine ⟨_, driveAll_cons (drive_skipped hitem hskipping line), ?_, ?_⟩
  · rw [finished_over hnest (settle_single hskipped.single) hbegun]
    exact ⟨line, _, rfl⟩
  · rw [finished_over hnest (settle_single hskipped.single) hbegun]
    intro _ scope rest habove hstate
    subst habove
    show through rest (Run.outcomeThrough scope.state none) = _
    rw [hstate]
    rfl

/-- An `else` is skipped after a skipped branch. -/
theorem drive_else_skipped (hnest : Nest base nest) (hscopes : m.env.scopes = nest)
    (horigin : nest.current.skipping = true ∨ m.lastIf = some true) (line : Nat) :
    drive base inFunction (line, .elseMark) ctx m =
      (.ok none, { m with line, lastIf := none }.withScopes
        (nest.over [skippedBranch .skippedElse])) := by
  have hpaired : m.env.scopes.current.skipping = true ∨ m.lastIf.isSome = true := by
    rcases horigin with hskipping | hlast
    · exact .inl (hscopes ▸ hskipping)
    · exact .inr (by rw [hlast]; rfl)
  have hstate : elseState m.env.scopes.current.skipping m.lastIf = .skippedElse := by
    rcases horigin with hskipping | hlast
    · rw [hscopes, hskipping]
      rfl
    · rw [hlast]
      cases m.env.scopes.current.skipping <;> rfl
  have hbegun : nest.begun = nest := ScopeStack.begun_eq hnest.settled
  rw [drive_else hpaired, hstate]
  unfold Machine.mapScopes
  dsimp only
  rw [hscopes, hbegun]
  rfl

theorem skipped_else (nest : ScopeStack) :
    Skipped nest [skippedBranch .skippedElse] where
  single := by
    intro scope hmem
    cases List.mem_singleton.mp hmem
    rfl
  skipping := rfl
  origin := .inr ⟨_, List.mem_singleton_self _, rfl⟩

/-- A skipped `if` opens a skipped branch. -/
theorem drive_if_skipped (hnest : Nest base nest) (hscopes : m.env.scopes = nest.over above)
    (hskipped : Skipped nest above) (line : Nat) (condition : Except SyntaxError Expr) :
    drive base inFunction (line, .condition condition) ctx m =
      (.ok none, { m with line, lastIf := none }.withScopes (nest.over
        (skippedBranch .skippedIf :: settle above))) := by
  rw [drive_condition_skipped (hscopes ▸ hskipped.skipping)]
  unfold Machine.mapScopes
  dsimp only
  rw [hscopes, begun_over hnest]
  rfl

mutual

/-- A skipped statement leaves the machine as it was, at the nest; a skipped first branch that is no
`if` leaves word that its `if` was false. -/
theorem skip : (tree : Tree) → Guarded tree → {nest : ScopeStack} → {above : List Scope} →
    {m : Machine} → Nest base nest → m.env.scopes = nest.over above → Skipped nest above →
    Ready above → Passes base inFunction ctx nest m (items tree) (Says tree above)
  | .expression line expr, _, nest, above, m, hnest, hscopes, hskipped, _ =>
    skip_unit hnest (.inl ⟨expr, rfl⟩) hscopes hskipped
  | .giveBack line expr, _, nest, above, m, hnest, hscopes, hskipped, _ =>
    skip_unit hnest (.inr ⟨expr, rfl⟩) hscopes hskipped
  | .block first body last, hguarded, nest, above, m, hnest, hscopes, hskipped, hready => by
    have hblock : (blockNest nest above).current.skipping = true := by
      have hskipping := hskipped.skipping
      cases above <;> exact hskipping
    have hopened : ({ m with line := first, lastIf := none }.mapScopes (·.opened)).env.scopes =
        blockNest nest above := by
      show m.env.scopes.opened = _
      rw [hscopes, opened_over hnest hready]
    obtain ⟨after, hbody, hlike, -⟩ := skipAll body hguarded (hnest.block above) hblock hopened
    have hclose := @drive_close base inFunction ctx after nest above hnest hskipped.single _
      (Passes.scopes hlike) (blockScope_singleLine nest above) last
    have hrun := (driveAll_append_none hbody).trans (driveAll_single hclose)
    refine ⟨_, (driveAll_cons (drive_blockOpen first m)).trans hrun, ?_, ?_⟩
    · obtain ⟨line, outcome, rfl⟩ := hlike
      exact ⟨last, _, rfl⟩
    · intro _ scope rest habove hstate
      subst habove
      show through rest (Run.blockOutcome scope.state) = _
      rw [hstate]
      rfl
  | .ifOnly line condition body, hguarded, nest, above, m, hnest, hscopes, hskipped, _ => by
    have hopen := @drive_if_skipped base inFunction ctx m nest above hnest hscopes hskipped line
      condition
    obtain ⟨after, hbody, hlike, -⟩ := skip body hguarded hnest (Machine.withScopes_scopes _ _)
      (hskipped.push rfl) (ready_push .skippedIf true (settle above))
    refine ⟨after, (driveAll_cons hopen).trans hbody, ?_, nofun⟩
    obtain ⟨line', outcome, rfl⟩ := hlike
    exact ⟨line', outcome, rfl⟩
  | .ifElse line condition body elseLine otherwise, hguarded, nest, above, m, hnest, hscopes,
      hskipped, _ => by
    have hopen := @drive_if_skipped base inFunction ctx m nest above hnest hscopes hskipped line
      condition
    obtain ⟨between, hbody, hlike, htold⟩ := skip body hguarded.2.1 hnest
      (Machine.withScopes_scopes _ _) (hskipped.push rfl) (ready_push .skippedIf true (settle above))
    have hlast := htold hguarded.1 _ _ rfl rfl
    have horigin : nest.current.skipping = true ∨ between.lastIf = some true := by
      rcases hskipped.origin with hnestSkipped | habove
      · exact .inl hnestSkipped
      · exact .inr (hlast.trans ((through_settle above _).trans (through_skipped false habove)))
    have helse := @drive_else_skipped base inFunction ctx between nest hnest
      (Passes.scopes hlike) horigin elseLine
    obtain ⟨after, hotherwise, hlike', -⟩ := skip otherwise hguarded.2.2 hnest
      (Machine.withScopes_scopes _ _) (skipped_else nest) (ready_push .skippedElse true [])
    refine ⟨after, ?_, ?_, nofun⟩
    · show driveAll base inFunction ((line, .condition condition) ::
        (items body ++ (elseLine, .elseMark) :: items otherwise)) ctx m = _
      rw [driveAll_cons hopen, driveAll_append_none hbody, driveAll_cons helse, hotherwise]
    · obtain ⟨line1, outcome1, rfl⟩ := hlike
      obtain ⟨line2, outcome2, rfl⟩ := hlike'
      exact ⟨line2, outcome2, rfl⟩

/-- Skipped statements leave the machine as it was. -/
theorem skipAll : (trees : List Tree) → GuardedAll trees → {nest : ScopeStack} → {m : Machine} →
    Nest base nest → nest.current.skipping = true → m.env.scopes = nest →
    Passes base inFunction ctx nest m (itemsAll trees) fun _ => True
  | [], _, nest, m, _, _, hscopes =>
    ⟨m, rfl, Machine.withScopes_eq hscopes ▸ .refl m, trivial⟩
  | tree :: rest, hguarded, nest, m, hnest, hskipping, hscopes => by
    have hskipped : Skipped nest [] := ⟨List.forall_mem_nil _, hskipping, .inl hskipping⟩
    obtain ⟨between, htree, hlike, -⟩ := skip tree hguarded.1 hnest hscopes hskipped ready_nil
    obtain ⟨after, hrest, hlike', -⟩ := skipAll rest hguarded.2 hnest hskipping
      (Passes.scopes hlike)
    refine ⟨after, (driveAll_append_none htree).trans hrest, ?_, trivial⟩
    obtain ⟨line1, outcome1, rfl⟩ := hlike
    obtain ⟨line2, outcome2, rfl⟩ := hlike'
    exact ⟨line2, outcome2, rfl⟩

end

end BuildScript.Program
