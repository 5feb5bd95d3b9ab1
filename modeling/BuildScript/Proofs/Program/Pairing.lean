import BuildScript.Proofs.Program.Structured
import BuildScript.Proofs.Program.Trial
import BuildScript.Proofs.Run.Lasting

/-!
Which `if` an `else` belongs to: the nearest one before it in its block that has no `else` yet. The
driver keeps to this as long as no branch that an `else` follows is itself an `if` without braces;
every shape of statements with such a branch has a program on which it does not.
-/

namespace BuildScript.Program

open Eval (Keeps)
open Machine (NoFewerErrors)
open Session (context)
open Text (SourceLine)

namespace Tree

/-- An `else` after the statement would belong to an `if` in it. -/
def isOpen : Tree → Bool
  | ifOnly _ _ _ => true
  | ifElse _ _ _ _ otherwise => otherwise.isOpen
  | _ => false

theorem isOpen_of_not_if {tree : Tree} (h : tree.isIf = false) : tree.isOpen = false := by
  cases tree with
  | ifOnly => cases h
  | ifElse => cases h
  | _ => rfl

end Tree

mutual

/-- Every `else` belongs to the nearest `if` before it that has no other: where a branch comes before
an `else`, each `if` at its end has one. -/
def Paired : Tree → Prop
  | .expression _ _ | .giveBack _ _ => True
  | .block _ body _ => PairedAll body
  | .ifOnly _ _ body => Paired body
  | .ifElse _ _ body _ otherwise => body.isOpen = false ∧ Paired body ∧ Paired otherwise

def PairedAll : List Tree → Prop
  | [] => True
  | tree :: rest => Paired tree ∧ PairedAll rest

end

mutual

theorem Guarded.paired : (tree : Tree) → Guarded tree → Paired tree
  | .expression _ _, _ | .giveBack _ _, _ => trivial
  | .block _ body _, h => GuardedAll.paired body h
  | .ifOnly _ _ body, h => Guarded.paired body h
  | .ifElse _ _ body _ otherwise, h =>
    ⟨Tree.isOpen_of_not_if h.1, Guarded.paired body h.2.1, Guarded.paired otherwise h.2.2⟩

theorem GuardedAll.paired : (trees : List Tree) → GuardedAll trees → PairedAll trees
  | [], _ => trivial
  | tree :: rest, h => ⟨Guarded.paired tree h.1, GuardedAll.paired rest h.2⟩

end

variable {base : Nat} {inFunction : Bool} {ctx : Context} {m : Machine} {nest : ScopeStack}
  {above : List Scope} {first : Nat} {tree tree' body : Tree}

theorem drive_reports (h : ctx.Reports) (placed : Placed) :
    Keeps NoFewerErrors ctx (drive base inFunction placed) := by
  have hchains := NoFewerErrors.chains
  have hitem := (Run.reports_effects h base).lines.runItem inFunction placed.2
  exact hchains.bind (hchains.update fun _ => Nat.le_refl _) fun _ =>
    hchains.bind hitem fun _ => hchains.pure _

theorem followedBy_reports {x y : Eval Outcome} (hy : Keeps NoFewerErrors ctx y) (m : Machine) :
    (x ctx m).2.errorCount ≤ (followedBy x y ctx m).2.errorCount := by
  rw [followedBy_apply]
  obtain ⟨result, after⟩ := x ctx m
  rcases result with fault | _ | value
  · exact Nat.le_refl _
  · exact hy.apply after
  · exact Nat.le_refl _

/-- Running units takes back no report. -/
theorem driveAll_reports (h : ctx.Reports) (placed : List Placed) :
    Keeps NoFewerErrors ctx (driveAll base inFunction placed) := by
  have hchains := NoFewerErrors.chains
  induction placed with
  | nil => exact hchains.pure _
  | cons unit rest ih =>
    refine hchains.bind (drive_reports h unit) fun outcome => ?_
    cases outcome with
    | none => exact ih
    | some value => exact hchains.pure _

theorem holds_verdict (line : Nat) (outcome : Bool) (m : Machine) :
    holds line (verdict outcome) ctx m = (.ok outcome, { m with line }) := rfl

mutual

/-- Executing a trial returns nothing and reports nothing. -/
theorem Trial.exec {scoping : Scoping} : {first : Nat} → {tree tree' : Tree} →
    Trial first tree tree' → ∀ (close : Nat) (m : Machine), ∃ after,
      exec scoping inFunction close tree' ctx m = (.ok none, after) ∧
        after.errorCount = m.errorCount
  | _, _, _, .expression, close, m | _, _, _, .giveBack, close, m => ⟨_, rfl, rfl⟩
  | _, _, _, .block hbody, close, m => by
    obtain ⟨after, hexec, herrors⟩ := TrialAll.exec hbody m
    refine ⟨after.mapScopes (·.truncate close), ?_, herrors⟩
    unfold Program.exec closing
    rw [followedBy_none hexec]
    rfl
  | _, _, _, .ifOnly outcome hbody, close, m => by
    unfold Program.exec
    rw [Eval.andThen_apply_ok (holds_verdict _ outcome m)]
    cases outcome with
    | false => exact ⟨_, rfl, rfl⟩
    | true => exact Trial.exec hbody close _
  | _, _, _, .ifElse outcome hbody hotherwise, close, m => by
    unfold Program.exec
    rw [Eval.andThen_apply_ok (show Run.scopes ctx m = (.ok m.env.scopes, m) from rfl),
      Eval.andThen_apply_ok (holds_verdict _ outcome m)]
    cases outcome with
    | false => exact Trial.exec hotherwise close _
    | true =>
      obtain ⟨after, hexec, herrors⟩ := Trial.exec hbody (scoping.between close m.env.scopes) _
      exact ⟨after.mapScopes (·.truncate close), followedBy_none hexec, herrors⟩

theorem TrialAll.exec {scoping : Scoping} : {first : Nat} → {trees trees' : List Tree} →
    TrialAll first trees trees' → ∀ (m : Machine), ∃ after,
      execAll scoping inFunction trees' ctx m = (.ok none, after) ∧
        after.errorCount = m.errorCount
  | _, _, _, .nil, m => ⟨m, rfl, rfl⟩
  | _, _, _, @TrialAll.cons _ _ tree' _ _ htree hrest, m => by
    obtain ⟨between, htree, herrors⟩ := Trial.exec htree m.env.scopes.depth
      (if tree'.isBlock then m.mapScopes (·.push .block) else m)
    obtain ⟨after, hrest, herrors'⟩ := TrialAll.exec hrest between
    refine ⟨after, ?_, herrors'.trans (herrors.trans ?_)⟩
    · rw [execAll_cons, followedBy_none htree, hrest]
    · split <;> rfl

end

/-- A guarded trial in running code comes back to its nest. -/
theorem Trial.executes (hctx : Faithful ctx) (h : Trial first tree tree')
    (hguarded : Guarded tree) (harrive : Arriving base nest above m) :
    ∃ after, driveAll base inFunction (items tree') ctx m = (.ok none, after) ∧
      nest.Within after.env.scopes ∧
      (tree.isIf = false → Says.Branch above after.lastIf) := by
  obtain ⟨hagrees, htold⟩ := @execute base inFunction ctx hctx tree' (h.guarded hguarded) _ _ _ _
    harrive (.refl _)
  obtain ⟨final, hexec, -⟩ := @Trial.exec inFunction ctx .chained _ _ _ h nest.depth
    (m.mapScopes (arrive tree'.isBlock))
  have hresult := hagrees.result
  rw [hexec] at hresult
  cases hdrive : driveAll base inFunction (items tree') ctx m with
  | mk result after =>
    rw [hdrive] at hresult hagrees htold
    cases hresult
    exact ⟨after, rfl, hagrees.within rfl, fun hnot => htold rfl (h.isIf.trans hnot)⟩

/-- The condition of a trial opens the branch it selects. -/
theorem drive_verdict (h : Arriving base nest above m) (line : Nat) (outcome : Bool) :
    ∃ after above', drive base inFunction (line, .condition (verdict outcome)) ctx m =
        (.ok none, after.mapScopes
          (·.push (.conditional (if outcome then .ifBody else .skippedIf)))) ∧
      Running base nest above' after ∧ after.errorCount = m.errorCount := by
  have hbegun := Running.of_waiting h.isNest h.running h.scopes h.live
  refine ⟨{ m.mapScopes (·.begun) with line, lastIf := none }, settle above, ?_,
    hbegun.place line none, rfl⟩
  rw [@drive_begun base inFunction ctx (.condition (verdict outcome)) nofun,
    drive_condition hbegun.settled hbegun.skipping]
  rfl

/-- A condition that holds brings the machine to the first branch. -/
theorem reach_first (h : Arriving base nest above m) (line : Nat) :
    ∃ reached scope above', Arriving base nest (scope :: above') reached ∧
      reached.errorCount = m.errorCount ∧ ∀ rest,
        driveAll base inFunction ((line, .condition (verdict true)) :: rest) ctx m =
          driveAll base inFunction rest ctx reached := by
  obtain ⟨after, above', hdrive, hrunning, herrors⟩ :=
    @drive_verdict base inFunction ctx m nest above h line true
  obtain ⟨scope, harrive, -⟩ := hrunning.branch (.inl rfl)
  exact ⟨_, scope, above', harrive, herrors, fun rest => driveAll_cons hdrive⟩

/-- A condition that does not hold brings the machine to the second branch, past a first one that
is no `if`. -/
theorem reach_second (h : Arriving base nest above m) (line elseLine : Nat)
    (hguarded : Guarded body) (hbody : body.isIf = false) :
    ∃ reached scope, Arriving base nest [scope] reached ∧ scope.state = .elseBody ∧
      reached.errorCount = m.errorCount ∧ ∀ rest,
        driveAll base inFunction ((line, .condition (verdict false)) ::
            (items body ++ (elseLine, .elseMark) :: rest)) ctx m =
          driveAll base inFunction rest ctx reached := by
  obtain ⟨after, above', hdrive, hrunning, herrors⟩ :=
    @drive_verdict base inFunction ctx m nest above h line false
  obtain ⟨mid, hskip, hmid, hlast⟩ := @skip_first base inFunction ctx after nest above' hrunning
    body hguarded
  have hnested : Running base nest [] mid :=
    ⟨hrunning.isNest, hrunning.running, hmid.scopes, List.forall_mem_nil _,
      hmid.scopes ▸ hrunning.isNest.settled⟩
  have helse := @drive_else_live base inFunction ctx mid nest hnested (hlast hbody) elseLine
  obtain ⟨scope, harrive, hstate⟩ := (hnested.place elseLine none).branch (.inr rfl)
  have hcount : mid.errorCount = m.errorCount := by
    obtain ⟨line', outcome, hmid⟩ := hmid
    rw [hmid]
    exact herrors
  refine ⟨_, scope, harrive, hstate, hcount, fun rest => ?_⟩
  rw [driveAll_cons hdrive]
  exact (driveAll_append_none hskip).trans (driveAll_cons helse)

/-- An `if` without braces each of whose `if`s has its `else` can end by running the last of them.
What it leaves then says that no `if` is left for another `else`. -/
theorem Trial.settles (hctx : Faithful ctx) : (tree : Tree) →
    Guarded tree → tree.isOpen = false → tree.isIf = true → ∀ first, ∃ tree',
      Trial first tree tree' ∧ ∀ {nest above m}, Arriving base nest above m → ∃ after,
        driveAll base inFunction (items tree') ctx m = (.ok none, after) ∧
          nest.Within after.env.scopes ∧ after.lastIf = none
  | .expression _ _, _, _, hif, _ | .giveBack _ _, _, _, hif, _ | .block _ _ _, _, _, hif, _ => by
    cases hif
  | .ifOnly _ _ _, _, hopen, _, _ => by cases hopen
  | .ifElse line condition body elseLine otherwise, hguarded, hopen, _, first => by
    obtain ⟨body', hbody⟩ := Trial.exists (first + 1) body
    have hskip := hbody.guarded hguarded.2.1
    have hnot := hbody.isIf.trans hguarded.1
    cases hotherwise : otherwise.isIf with
    | true =>
      obtain ⟨otherwise', htrial, hsettles⟩ := Trial.settles hctx otherwise hguarded.2.2
        hopen hotherwise (first + 1 + (items body').length + 1)
      refine ⟨_, .ifElse false hbody htrial, fun harrive => ?_⟩
      obtain ⟨reached, scope, hreached, -, -, hdrive⟩ :=
        @reach_second base inFunction ctx _ _ _ body' harrive first
          (first + 1 + (items body').length) hskip hnot
      unfold items
      rw [hdrive]
      exact hsettles hreached
    | false =>
      obtain ⟨otherwise', htrial⟩ :=
        Trial.exists (first + 1 + (items body').length + 1) otherwise
      refine ⟨_, .ifElse false hbody htrial, fun harrive => ?_⟩
      obtain ⟨reached, scope, hreached, hstate, -, hdrive⟩ :=
        @reach_second base inFunction ctx _ _ _ body' harrive first
          (first + 1 + (items body').length) hskip hnot
      obtain ⟨after, hrun, hwithin, htold⟩ :=
        @Trial.executes base inFunction ctx _ _ _ _ _ _ hctx htrial hguarded.2.2 hreached
      unfold items
      rw [hdrive]
      exact ⟨after, hrun, hwithin, (htold hotherwise).second scope rfl hstate⟩

/-- Wherever the machine comes to these units, an error is reported in them. -/
def Fails (base : Nat) (inFunction : Bool) (ctx : Context) (placed : List Placed) : Prop :=
  ∀ nest above m, Arriving base nest above m →
    m.errorCount < (driveAll base inFunction placed ctx m).2.errorCount

theorem Fails.before {placed rest : List Placed} (hreports : ctx.Reports)
    (h : Fails base inFunction ctx placed) : Fails base inFunction ctx (placed ++ rest) := by
  intro nest above m harrive
  rw [driveAll_append]
  exact Nat.lt_of_lt_of_le (h nest above m harrive)
    (followedBy_reports (driveAll_reports hreports rest) m)

theorem Fails.first_branch {placed : List Placed} (h : Fails base inFunction ctx placed) (line : Nat) :
    Fails base inFunction ctx ((line, .condition (verdict true)) :: placed) := by
  intro nest above m harrive
  obtain ⟨reached, scope, above', hreached, herrors, hdrive⟩ :=
    @reach_first base inFunction ctx m nest above harrive line
  rw [hdrive, ← herrors]
  exact h nest _ reached hreached

theorem Fails.second_branch {placed : List Placed} (h : Fails base inFunction ctx placed)
    (line elseLine : Nat) (hguarded : Guarded body) (hbody : body.isIf = false) :
    Fails base inFunction ctx ((line, .condition (verdict false)) ::
      (items body ++ (elseLine, .elseMark) :: placed)) := by
  intro nest above m harrive
  obtain ⟨reached, scope, hreached, -, herrors, hdrive⟩ :=
    @reach_second base inFunction ctx m nest above body harrive line elseLine hguarded hbody
  rw [hdrive, ← herrors]
  exact h nest _ reached hreached

/-- The second branch of an `if` whose first one leaves word of no `if` fails. -/
theorem Fails.unpaired {placed rest : List Placed} (hreports : ctx.Reports) (line elseLine : Nat)
    (hsettles : ∀ {nest above m}, Arriving base nest above m → ∃ after,
      driveAll base inFunction placed ctx m = (.ok none, after) ∧
        nest.Within after.env.scopes ∧ after.lastIf = none) :
    Fails base inFunction ctx ((line, .condition (verdict true)) ::
      (placed ++ (elseLine, .elseMark) :: rest)) := by
  refine Fails.first_branch ?_ line
  intro nest above m harrive
  obtain ⟨after, hrun, hwithin, hlast⟩ := hsettles harrive
  have hcount : m.errorCount ≤ after.errorCount := by
    have hplaced := (@driveAll_reports base inFunction ctx hreports placed).apply m
    rw [hrun] at hplaced
    exact hplaced
  have hsettled : after.env.scopes.current.awaitingBody = false :=
    hwithin.current.settled harrive.isNest.settled
  have hlive : after.env.scopes.current.skipping = false :=
    hwithin.current.skipping.trans harrive.running
  have helse := @drive_else_unpaired base inFunction ctx after hsettled hlive hlast elseLine
  have hrest := @followedBy_reports ctx (drive base inFunction (elseLine, .elseMark)) _
    (@driveAll_reports base inFunction ctx hreports rest) after
  rw [driveAll_append_none hrun]
  show m.errorCount < (followedBy (drive base inFunction (elseLine, .elseMark))
    (driveAll base inFunction rest) ctx after).2.errorCount
  omega

/-- Statements fail in a block if they do at the start of one. -/
theorem Fails.block {placed : List Placed} (hreports : ctx.Reports)
    (h : ∀ {nest m}, Arriving base nest [] m →
      m.errorCount < (driveAll base inFunction placed ctx m).2.errorCount) (line line' : Nat) :
    Fails base inFunction ctx ((line, .blockOpen) :: (placed ++ [(line', .blockClose)])) := by
  intro nest above m harrive
  have hopened : ({ m with line, lastIf := none }.mapScopes (·.opened)).env.scopes =
      blockNest nest above := by
    show m.env.scopes.opened = _
    rw [harrive.scopes, opened_over harrive.isNest harrive.ready]
  have hrun : (blockNest nest above).current.skipping = false := by
    cases above with
    | nil => exact harrive.running
    | cons scope rest => exact (harrive.live scope List.mem_cons_self).running
  have hbody := h (.next (harrive.isNest.block above) hrun hopened)
  rw [driveAll_cons (drive_blockOpen line m), driveAll_append]
  exact Nat.lt_of_lt_of_le hbody
    (followedBy_reports (@driveAll_reports base inFunction ctx hreports _) _)

mutual

/-- Every shape with an `if` without braces before an `else` has a trial that fails. -/
theorem Trial.fails (hctx : Faithful ctx) (hreports : ctx.Reports) : (tree : Tree) → Paired tree →
    ¬Guarded tree → ∀ first, ∃ tree', Trial first tree tree' ∧
      Fails base inFunction ctx (items tree')
  | .expression _ _, _, hnot, _ | .giveBack _ _, _, hnot, _ => absurd trivial hnot
  | .block line body line', hpaired, hnot, first => by
    obtain ⟨body', htrial, hfails⟩ := TrialAll.fails hctx hreports body hpaired hnot (first + 1)
    refine ⟨_, .block htrial, ?_⟩
    unfold items
    exact Fails.block hreports hfails first (first + 1 + (itemsAll body').length)
  | .ifOnly line condition body, hpaired, hnot, first => by
    obtain ⟨body', htrial, hfails⟩ := Trial.fails hctx hreports body hpaired hnot (first + 1)
    refine ⟨_, .ifOnly true htrial, ?_⟩
    unfold items
    exact hfails.first_branch first
  | .ifElse line condition body elseLine otherwise, hpaired, hnot, first => by
    by_cases hbody : Guarded body
    · cases hif : body.isIf with
      | true =>
        -- the `if` in the first branch runs its last branch, and the `else` finds no `if`
        obtain ⟨body', htrial, hsettles⟩ :=
          @Trial.settles base inFunction ctx hctx body hbody hpaired.1 hif (first + 1)
        obtain ⟨otherwise', hotherwise⟩ :=
          Trial.exists (first + 1 + (items body').length + 1) otherwise
        refine ⟨_, .ifElse true htrial hotherwise, ?_⟩
        unfold items
        exact Fails.unpaired hreports first (first + 1 + (items body').length) hsettles
      | false =>
        have hotherwise : ¬Guarded otherwise := fun hguarded => hnot ⟨hif, hbody, hguarded⟩
        obtain ⟨body', htrial⟩ := Trial.exists (first + 1) body
        obtain ⟨otherwise', htrial', hfails⟩ := Trial.fails hctx hreports otherwise hpaired.2.2
          hotherwise (first + 1 + (items body').length + 1)
        refine ⟨_, .ifElse false htrial htrial', ?_⟩
        unfold items
        exact hfails.second_branch first (first + 1 + (items body').length)
          (htrial.guarded hbody) (htrial.isIf.trans hif)
    · obtain ⟨body', htrial, hfails⟩ :=
        Trial.fails hctx hreports body hpaired.2.1 hbody (first + 1)
      obtain ⟨otherwise', htrial'⟩ :=
        Trial.exists (first + 1 + (items body').length + 1) otherwise
      refine ⟨_, .ifElse true htrial htrial', ?_⟩
      unfold items
      exact (hfails.before hreports).first_branch first

theorem TrialAll.fails (hctx : Faithful ctx) (hreports : ctx.Reports) : (trees : List Tree) →
    PairedAll trees → ¬GuardedAll trees → ∀ first, ∃ trees', TrialAll first trees trees' ∧
      ∀ {nest m}, Arriving base nest [] m →
        m.errorCount < (driveAll base inFunction (itemsAll trees') ctx m).2.errorCount
  | [], _, hnot, _ => absurd trivial hnot
  | tree :: rest, hpaired, hnot, first => by
    by_cases hguarded : Guarded tree
    · obtain ⟨tree', htrial⟩ := Trial.exists first tree
      have hrest : ¬GuardedAll rest := fun hrest => hnot ⟨hguarded, hrest⟩
      obtain ⟨rest', htrials, hfails⟩ := TrialAll.fails hctx hreports rest hpaired.2 hrest
        (first + (items tree').length)
      refine ⟨_, .cons htrial htrials, fun {nest m} harrive => ?_⟩
      obtain ⟨after, hrun, hwithin, -⟩ :=
        @Trial.executes base inFunction ctx _ _ _ _ _ _ hctx htrial hguarded harrive
      have hcount : m.errorCount ≤ after.errorCount := by
        have hplaced := (@driveAll_reports base inFunction ctx hreports (items tree')).apply m
        rw [hrun] at hplaced
        exact hplaced
      have hnext : Arriving base after.env.scopes [] after :=
        .next (harrive.isNest.within hwithin) (hwithin.current.skipping.trans harrive.running) rfl
      unfold itemsAll
      rw [driveAll_append_none hrun]
      exact Nat.lt_of_le_of_lt hcount (hfails hnext)
    · obtain ⟨tree', htrial, hfails⟩ := Trial.fails hctx hreports tree hpaired.1 hguarded first
      obtain ⟨rest', htrials⟩ := TrialAll.exists (first + (items tree').length) rest
      refine ⟨_, .cons htrial htrials, fun {nest m} harrive => ?_⟩
      unfold itemsAll
      exact hfails.before hreports nest [] m harrive

end

/-- What the units report, their lines report when they are run. -/
theorem runLines_reports_drives (hctx : ctx.Restores) {lines : List SourceLine}
    {placed : List Placed} (hlaid : Laid lines placed) (m : Machine) :
    (driveAll m.env.scopes.depth inFunction placed ctx m).2.errorCount ≤
      (Run.runLines lines inFunction ctx m).2.errorCount := by
  obtain ⟨-, line, outcome, hlike⟩ := @runScript_drives m.env.scopes.depth inFunction ctx hctx _ _
    hlaid.places .nothing rfl m.line m
  have hcount : (Run.runScript m.env.scopes.depth inFunction .nothing (Script.ofLines lines) ctx
      m).2.errorCount = (driveAll m.env.scopes.depth inFunction placed ctx m).2.errorCount := by
    rw [hlike]
  rw [Run.runLines_apply, ← hcount]
  exact Run.ended_keeps NoFewerErrors.lasting _ _

/-- Which `if` an `else` belongs to. If no branch before an `else` is an `if` without braces, the
units run as the tree that pairs each `else` with the nearest `if` that has no other: the branches
that it selects are executed, and nothing is reported beyond what they report. If there is such a
branch, some program of the same shape reports an `else` although its tree reports nothing. -/
theorem else_pairing {trees : List Tree} (hpaired : PairedAll trees) :
    (GuardedAll trees → ∀ {host : Host}, host.Steady → host.Blind → ∀ (budget : Nat)
        (held : List Anchor) (inFunction : Bool) (lines : List SourceLine),
      Laid lines (itemsAll trees) → ∀ m : Machine,
        m.env.scopes.current.awaitingBody = false → m.env.scopes.current.skipping = false →
      let units := Run.runLines lines inFunction (context host budget held) m
      let tree := run .chained inFunction trees (context host budget held) m
      units.1.map Flow.returned? = tree.1 ∧ units.2.Like tree.2) ∧
    (¬GuardedAll trees → ∃ (trees' : List Tree) (source : String), TrialAll 1 trees trees' ∧
      Laid (SourceLine.split source) (itemsAll trees') ∧
      (run .chained false trees' (context .none 1 []) start).2.errorCount = start.errorCount ∧
      start.errorCount < (Run.runLines (SourceLine.split source) false (context .none 1 [])
        start).2.errorCount) := by
  constructor
  · intro hguarded host hsteady hblind budget held inFunction lines hlaid m hsettled hrunning
    exact runLines_like_run (context_faithful hsteady hblind budget held) hguarded hlaid hsettled
      hrunning
  · intro hnot
    have hctx := context_faithful Host.none_steady Host.none_blind 1 []
    have hreports := Session.context_reports (Host.none_keeps NoFewerErrors.lasting) 1 []
    obtain ⟨trees', htrial, hfails⟩ := @TrialAll.fails start.env.scopes.depth false _ hctx hreports
      trees hpaired hnot 1
    obtain ⟨source, hlaid⟩ := htrial.laid
    have harrive : Arriving start.env.scopes.depth start.env.scopes [] start :=
      .next ⟨Nat.le_refl _, .inl rfl, rfl⟩ rfl rfl
    obtain ⟨after, hexec, herrors⟩ :=
      @TrialAll.exec false (context .none 1 []) .chained _ _ _ htrial start
    refine ⟨trees', source, htrial, hlaid, ?_, ?_⟩
    · rw [run_apply, hexec]
      exact herrors
    · exact Nat.lt_of_lt_of_le (hfails harrive)
        (runLines_reports_drives hctx.restores hlaid start)

/-- `println(n)` -/
def printing (n : Int32) : Tree := .expression 1 (.call (.identifier "println") [.literal (.int n)])

/-- `if (true) if (false) println(1) else println(2) else println(3)` -/
def nested : Tree :=
  .ifElse 1 (verdict true) (.ifElse 1 (verdict false) (printing 1) 1 (printing 2)) 1 (printing 3)

def nestedLines : List SourceLine :=
  [⟨1, "if (true) if (false) println(1) else println(2) else println(3)"⟩]

theorem nested_paired : PairedAll [nested] := ⟨⟨rfl, ⟨rfl, trivial, trivial⟩, trivial⟩, trivial⟩

theorem nested_not_guarded : ¬GuardedAll [nested] := by
  rintro ⟨⟨hbody, -⟩, -⟩
  cases hbody

theorem nested_laid : Laid nestedLines (itemsAll [nested]) :=
  Laid.line
    (show spliceLine ⟨1, "if (true) if (false) println(1) else println(2) else println(3)"⟩ [] =
      (.ok (tokensOf "if (true) if (false) println(1) else println(2) else println(3)"), [])
      by cbv)
    (show _ = ((itemsAll [nested]).map Prod.snd).map Sum.inl by cbv) .nil

theorem nested_shape_fails : PairedAll [nested] ∧ ∃ (trees' : List Tree) (source : String),
    TrialAll 1 [nested] trees' ∧ Laid (SourceLine.split source) (itemsAll trees') ∧
      0 < (Run.runLines (SourceLine.split source) false (context .none 1 []) start).2.errorCount := by
  obtain ⟨trees', source, htrial, hlaid, -, hcount⟩ :=
    (else_pairing nested_paired).2 nested_not_guarded
  exact ⟨nested_paired, trees', source, htrial, hlaid, hcount⟩

/-- The second `else` belongs to the first `if` and is reported nevertheless. -/
theorem nested_else_reported :
    ¬∀ (trees : List Tree) (lines : List SourceLine), PairedAll trees →
      Laid lines (itemsAll trees) →
      (Run.runLines lines false (context .none 1 []) start).2.Like
        (run .chained false trees (context .none 1 []) start).2 := by
  intro hclaim
  obtain ⟨line, outcome, hlike⟩ := hclaim _ _ nested_paired nested_laid
  have hctx := context_faithful Host.none_steady Host.none_blind 1 []
  have hunits := @runLines_reports_drives false _ hctx.restores _ _ nested_laid start
  have hcount : (run .chained false [nested] (context .none 1 []) start).2.errorCount =
      (Run.runLines nestedLines false (context .none 1 []) start).2.errorCount := by
    rw [hlike]
  have htree : (run .chained false [nested] (context .none 1 []) start).2.errorCount = 0 := rfl
  have hreported : (driveAll start.env.scopes.depth false (itemsAll [nested])
      (context .none 1 []) start).2.errorCount = 1 := rfl
  omega

end BuildScript.Program
