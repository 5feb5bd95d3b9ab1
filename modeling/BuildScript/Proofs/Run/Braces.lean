import Mathlib
import BuildScript.Proofs.Run.Scripts
import BuildScript.Proofs.Scopes.Blocks

/-!
The braces of a body or file. Between the items of its lines, the braced blocks that are open above
the scopes that were there first are as many as opening braces were run, less the closing ones that
found a block to close. So a closing brace is unmatched, and something is left open at the end,
exactly if the count says so.
-/

namespace BuildScript

open Text (SourceLine)
open Item (Outline)

/-- The items of a script, in order. Lines that do not lex have none. -/
def Script.items (script : Script) : List Item :=
  script.flatMap fun line =>
    match line.items with
    | .ok items => items
    | .error _ => []

namespace Run

open ScopeStack (Below)

variable {base : Nat} {inFunction : Bool} {ctx : Context} {m : Machine} {script : Script}

/-- Where the lines of a script are, between two items, as long as none of these returned or was
unwound: the items that were run, each with the machine that it found, the ones left on the line,
the lines after it, and the machine. -/
inductive Underway (base : Nat) (inFunction : Bool) (ctx : Context) (script : Script) (m : Machine) :
    List (Item × Machine) → List Item → Script → Machine → Prop
  | start : Underway base inFunction ctx script m [] [] script m
  | line {done number items rest at'}
    (h : Underway base inFunction ctx script m done [] (⟨number, .ok items⟩ :: rest) at') :
    Underway base inFunction ctx script m done items rest { at' with line := number }
  | unread {done number e rest at'}
    (h : Underway base inFunction ctx script m done [] (⟨number, .error e⟩ :: rest) at') :
    Underway base inFunction ctx script m done [] rest
      ({ at' with line := number }.report (.parse e))
  | item {done item items rest at' after} {flow : Flow}
    (h : Underway base inFunction ctx script m done (item :: items) rest at')
    (hrun : runItem base inFunction item ctx at' = (.ok flow, after))
    (hflow : flow.returned? = none) :
    Underway base inFunction ctx script m (done ++ [(item, at')]) items rest after

/-- The opening braces among the items that were run. -/
def bracesOpened (done : List (Item × Machine)) : Nat :=
  done.countP fun step => step.1.outline = .blockOpen

/-- The closing braces among the items that were run, as far as they found a block to close. -/
def bracesClosed (base : Nat) (done : List (Item × Machine)) : Nat :=
  done.countP fun step =>
    step.1.outline = .blockClose ∧ step.2.env.scopes.hasOpenBlock base = true

namespace Underway

variable {done : List (Item × Machine)} {items : List Item} {rest : Script} {now after : Machine}
  {flow : Flow}

theorem items_eq (h : Underway base inFunction ctx script m done items rest now) :
    done.map Prod.fst ++ items ++ rest.items = script.items := by
  induction h with
  | start => rfl
  | line h ih => simpa [Script.items] using ih
  | unread h ih => simpa [Script.items] using ih
  | item h hrun hflow ih => simpa using ih

/-- The items of a line, if the last of them is reached. -/
theorem runItems (h : Underway base inFunction ctx script m done items rest now) {flow' : Flow}
    (hrun : Run.runItems base inFunction flow items ctx now = (.ok flow', after))
    (hflow : flow'.returned? = none) :
    ∃ done, Underway base inFunction ctx script m done [] rest after := by
  induction items generalizing done flow now with
  | nil =>
    cases hrun
    exact ⟨done, h⟩
  | cons item items ih =>
    rw [Program.runItems_cons] at hrun
    obtain ⟨own, between, hitem, hreturned, hrest⟩ := goOn_ok hrun hflow
    exact ih (h.item hitem hreturned) hrest

/-- The lines of a script, if its end is reached. -/
theorem runScript (h : Underway base inFunction ctx script m done [] rest now) {flow' : Flow}
    (hrun : Run.runScript base inFunction flow rest ctx now = (.ok flow', after))
    (hflow : flow'.returned? = none) :
    ∃ done, Underway base inFunction ctx script m done [] [] after := by
  induction rest generalizing done flow now with
  | nil =>
    cases hrun
    exact ⟨done, h⟩
  | cons line rest ih =>
    obtain ⟨number, items⟩ := line
    cases items with
    | error e => exact ih h.unread hrun
    | ok items =>
      rw [Program.runScript_cons] at hrun
      obtain ⟨own, between, hentered, hreturned, hrest⟩ := goOn_ok hrun hflow
      have hline := @Program.runLine_returned base inFunction ctx items { now with line := number }
      rw [hentered] at hline
      cases hitems : Run.runItems base inFunction .nothing items ctx { now with line := number } with
      | mk result left =>
        rw [hitems] at hline
        obtain ⟨hresult, rfl⟩ := Prod.mk.inj hline
        cases result with
        | error fault => cases hresult
        | ok flow' =>
          have hreturned' : flow'.returned? = none := by
            rw [← Except.ok.inj hresult, hreturned]
          obtain ⟨done, hline⟩ := h.line.runItems hitems hreturned'
          exact ih hline hrest

end Underway

/-- An item that does not return moves the scopes, in a function and outside of it. -/
theorem runItem_kept (hctx : ctx.Restores) {item : Item} {after : Machine} {flow : Flow}
    (hrun : runItem base inFunction item ctx m = (.ok flow, after)) (hflow : flow.returned? = none) :
    Moved base item.outline m after := by
  cases inFunction with
  | false => exact (runItem_moved (item.gentle hctx m) hrun).2
  | true =>
    cases hskipping : m.env.scopes.current.skipping with
    | true =>
      obtain ⟨_, -, hpassed⟩ := @Program.runItem_passedOver base true ctx m hskipping item
      rw [hpassed] at hrun
      cases hrun
      exact passedOver_moved item.outline m
    | false =>
      by_cases hreturn : ∃ expr, item = .giveBack expr
      · obtain ⟨expr, rfl⟩ := hreturn
        unfold runItem at hrun
        rw [Eval.andThen_apply_ok (Program.beginItem_running (by simp) hskipping)] at hrun
        obtain ⟨value, between, -, hgive⟩ := Eval.andThen_ok hrun
        cases hgive
        cases hflow
      · have hsame : runItem base true item = runItem base false item := by
          cases item with
          | giveBack expr => exact absurd ⟨expr, rfl⟩ hreturn
          | _ => rfl
        rw [hsame] at hrun
        exact (runItem_moved (item.gentle hctx m) hrun).2

/-- The scopes lie above some that are as deep as `base` and do not wait for a body. -/
def Settled (base : Nat) (stack : ScopeStack) : Prop :=
  ∃ start : ScopeStack, start.depth = base ∧ start.current.isWaiting = false ∧ Below start stack

/-- The first scopes wait for a body until an item begins, and this is not going to be a brace. -/
def Unbegun (m : Machine) (done : List (Item × Machine)) (next : List Item) (stack : ScopeStack) :
    Prop :=
  done = [] ∧ stack = m.env.scopes ∧ next.head? ≠ some .blockOpen

theorem openBlocks_initial (m : Machine) : m.env.scopes.openBlocks m.env.scopes.depth = 0 :=
  ScopeStack.openBlocks_base _ (Nat.le_refl _)

/-- An item that is no opening brace ends the wait of the innermost scope before it does anything. -/
theorem Moves.begun {a b : ScopeStack} {outline : Outline} (h : Moves base a outline b)
    (houtline : outline ≠ .blockOpen) : Moves base a.begun outline b := by
  have hbegun : a.begun.begun = a.begun := by
    obtain ⟨inner, names⟩ := a
    cases inner <;> rfl
  cases h with
  | condition hwithin state => exact .condition (hbegun.symm ▸ hwithin) state
  | elseMark state =>
    have hmark : Moves base a.begun .elseMark (a.begun.begun.push (.conditional state)) :=
      .elseMark state
    rwa [hbegun] at hmark
  | blockOpen => exact absurd rfl houtline
  | blockClose hb hopen => exact .blockClose (hbegun.symm ▸ hb) hopen
  | unmatched hb hclosed => exact .unmatched (hbegun.symm ▸ hb) hclosed
  | statement hwithin => exact .statement (hbegun.symm ▸ hwithin)
  | malformed hwithin => exact .malformed (hbegun.symm ▸ hwithin)

/-- The count of braces fits the blocks. -/
def Counted (base : Nat) (done : List (Item × Machine)) (now : Machine) : Prop :=
  now.env.scopes.openBlocks base + bracesClosed base done = bracesOpened done

/-- One item keeps the count. -/
theorem Counted.item {done : List (Item × Machine)} {item : Item} {now after : Machine}
    (h : Counted base done now) (hmoved : Moved base item.outline now after) (hbase : 1 ≤ base)
    (hdepth : base ≤ now.env.scopes.depth)
    (hwaiting : item.outline = .blockOpen → now.env.scopes.depth = base →
      now.env.scopes.current.isWaiting = false) : Counted base (done ++ [(item, now)]) after := by
  have hcount := hmoved.scopes.openBlocks hbase hdepth hwaiting
  unfold Counted bracesOpened bracesClosed at *
  rw [List.countP_append, List.countP_append, List.countP_singleton, List.countP_singleton]
  simp only [decide_eq_true_eq]
  omega

theorem outline_blockOpen {item : Item} : item.outline = .blockOpen ↔ item = .blockOpen := by
  cases item <;> simp [Item.outline]

theorem Underway.counted (hctx : ctx.Restores) {done : List (Item × Machine)} {items : List Item}
    {rest : Script} {now : Machine}
    (h : Underway m.env.scopes.depth inFunction ctx script m done items rest now)
    (hstart : m.env.scopes.current.isWaiting = true → script.items.head? ≠ some .blockOpen) :
    Counted m.env.scopes.depth done now ∧
      (Settled m.env.scopes.depth now.env.scopes ∨
        Unbegun m done (items ++ rest.items) now.env.scopes) := by
  have hbase : 1 ≤ m.env.scopes.depth := Nat.succ_le_succ (Nat.zero_le _)
  induction h with
  | start =>
    refine ⟨openBlocks_initial m, ?_⟩
    cases hwaiting : m.env.scopes.current.isWaiting with
    | false => exact .inl ⟨m.env.scopes, rfl, hwaiting, .of_within (.refl _)⟩
    | true => exact .inr ⟨rfl, rfl, hstart hwaiting⟩
  | line h ih => exact ih
  | unread h ih => exact ih
  | @item done item items rest now after flow h hrun hflow ih =>
    obtain ⟨hcounted, hplace⟩ := ih
    have hmoved := runItem_kept hctx hrun hflow
    rcases hplace with ⟨start, hdepth, hsettled, hbelow⟩ | ⟨-, hscopes, hnext⟩
    · -- The base is that of scopes which never wait.
      refine ⟨hcounted.item hmoved hbase (hdepth ▸ hbelow.depth) ?_, .inl ⟨start, hdepth, hsettled, ?_⟩⟩
      · intro _ hatBase
        exact hbelow.settled hsettled (hatBase.trans hdepth.symm)
      · exact Moves.below (hdepth.symm ▸ hmoved.scopes) hbelow
    · -- The first item begins, so from now on the first scopes do not wait.
      have hopen : item.outline ≠ .blockOpen := by
        intro hopen
        exact hnext (congrArg some (outline_blockOpen.mp hopen))
      have hmoves := hmoved.scopes.begun hopen
      rw [hscopes] at hmoves
      have hdepth : m.env.scopes.begun.depth = m.env.scopes.depth :=
        (ScopeStack.Within.begun _).depth
      refine ⟨hcounted.item hmoved hbase (Nat.le_of_eq (congrArg _ hscopes.symm))
        (fun houtline => absurd houtline hopen), .inl ⟨m.env.scopes.begun, hdepth,
        ScopeStack.begun_isWaiting _, ?_⟩⟩
      exact Moves.below (hdepth.symm ▸ hmoves) (.of_within (.refl _))

theorem openSingles_single (scopes : List Scope) :
    ∀ scope ∈ scopes.take (openSingles base scopes), scope.singleLine = true := by
  induction scopes with
  | nil => simp
  | cons scope rest ih =>
    unfold openSingles
    split
    · rename_i hsingle
      rw [List.take_succ_cons]
      exact List.forall_mem_cons.mpr ⟨(Bool.and_eq_true_iff.mp hsingle).2, ih⟩
    · simp

/-- A closing brace in any scope, skipped or not. -/
theorem runItem_blockClose (base : Nat) (inFunction : Bool) (ctx : Context) (m : Machine) :
    ∃ flow : Flow, flow.returned? = none ∧ runItem base inFunction .blockClose ctx m =
      (.ok flow, Program.afterClose base (m.mapScopes (·.begun))) := by
  cases hskipping : m.env.scopes.current.skipping with
  | true => exact Program.runItem_passedOver hskipping .blockClose
  | false =>
    unfold runItem
    rw [Eval.andThen_apply_ok (Program.beginItem_running (by simp) hskipping)]
    exact Program.closeBlock_afterClose _

/-- Where no block is open above the first scopes, a closing brace is reported, and nothing else is
closed than bodies of one statement. -/
theorem afterClose_unmatched (hbase : 1 ≤ base) (hnone : m.env.scopes.openBlocks base = 0) :
    ∃ count ≤ m.env.scopes.depth - base,
      (∀ scope ∈ m.env.scopes.inner.take count, scope.singleLine = true) ∧
      Program.afterClose base (m.mapScopes (·.begun)) =
        (m.withScopes (m.env.scopes.begun.without count)).report (.eval .unmatchedBrace) := by
  have hclosed : (m.env.scopes.begun.without
      (openSingles base m.env.scopes.begun.inner)).depth ≤ base := by
    apply Nat.le_of_not_lt
    rw [← ScopeStack.hasOpenBlock_iff, ScopeStack.hasOpenBlock_begun,
      ← ScopeStack.openBlocks_pos _ hbase, hnone]
    exact Nat.lt_irrefl 0
  have hle := ScopeStack.openSingles_le base m.env.scopes.begun.inner
  have hsingle := @openSingles_single base m.env.scopes.begun.inner
  refine ⟨openSingles base m.env.scopes.begun.inner, ?_, ?_, ?_⟩
  · rw [ScopeStack.length_begun] at hle
    unfold ScopeStack.depth
    omega
  · generalize openSingles base m.env.scopes.begun.inner = count at hsingle
    generalize m.env.scopes = stack at hsingle
    obtain ⟨inner, names⟩ := stack
    cases inner with
    | nil => simp
    | cons scope rest =>
      cases count with
      | zero => simp
      | succ count => simpa [ScopeStack.begun, ScopeStack.mapCurrent] using hsingle
  · unfold Program.afterClose
    exact if_pos hclosed

/-- Where a block is open, a closing brace reports nothing. -/
theorem afterClose_matched (hbase : 1 ≤ base) (hsome : 0 < m.env.scopes.openBlocks base) :
    (Program.afterClose base (m.mapScopes (·.begun))).events = m.events ∧
      (Program.afterClose base (m.mapScopes (·.begun))).errorCount = m.errorCount := by
  have hopen : base < (m.env.scopes.begun.without
      (openSingles base m.env.scopes.begun.inner)).depth := by
    rw [← ScopeStack.hasOpenBlock_iff, ScopeStack.hasOpenBlock_begun,
      ← ScopeStack.openBlocks_pos _ hbase]
    exact hsome
  unfold Program.afterClose
  dsimp only [Machine.mapScopes]
  rw [if_neg (Nat.not_le.mpr hopen)]
  exact ⟨rfl, rfl⟩

/-- The turn of the first item comes in scopes that are as they were. -/
theorem Underway.first {item : Item} {rest : Script} {now : Machine}
    (h : Underway base inFunction ctx script m [] [] rest now)
    (hfirst : rest.items.head? = some item) :
    ∃ items rest found, Underway base inFunction ctx script m [] (item :: items) rest found ∧
      found.env.scopes = now.env.scopes := by
  induction rest generalizing now with
  | nil => cases hfirst
  | cons line rest ih =>
    obtain ⟨number, items⟩ := line
    cases items with
    | error e =>
      obtain ⟨items, rest, found, hfound, hscopes⟩ := ih h.unread hfirst
      exact ⟨items, rest, found, hfound, hscopes⟩
    | ok items =>
      cases items with
      | nil =>
        obtain ⟨items, rest, found, hfound, hscopes⟩ := ih h.line hfirst
        exact ⟨items, rest, found, hfound, hscopes⟩
      | cons first items =>
        cases hfirst
        exact ⟨items, rest, _, h.line, rfl⟩

/-- A brace that makes the outermost scope a block is not counted. -/
theorem uncounted_of_waiting (inFunction : Bool) (ctx : Context)
    (hwaiting : m.env.scopes.current.isWaiting = true)
    (hfirst : script.items.head? = some .blockOpen) :
    ∃ done items rest now,
      Underway m.env.scopes.depth inFunction ctx script m done items rest now ∧
        now.env.scopes.openBlocks m.env.scopes.depth +
          bracesClosed m.env.scopes.depth done ≠ bracesOpened done := by
  have hstart : Underway m.env.scopes.depth inFunction ctx script m [] [] script m := .start
  obtain ⟨items, rest, found, hunderway, hscopes⟩ := hstart.first hfirst
  have hopened := found.env.scopes.openBlocks_opened_waiting (congrArg _ hscopes)
    (hscopes.symm ▸ hwaiting)
  have hbrace : runItem m.env.scopes.depth inFunction .blockOpen ctx found =
      (.ok .nothing, { found with lastIf := none }.mapScopes (·.opened)) := rfl
  refine ⟨_, items, rest, _, hunderway.item hbrace rfl, ?_⟩
  intro hcounted
  change found.env.scopes.opened.openBlocks m.env.scopes.depth + 0 = 1 at hcounted
  rw [hopened] at hcounted
  cases hcounted

/-- Braces are counted. While the lines of a body or file run, the braced blocks above the scopes
that were there before and the closing braces that found a block to close are together as many as the
opening braces, whatever else is between them; unless the outermost scope waits for its body when the
first item comes, and this is a brace. A closing brace is reported exactly if no block is open, and then
closes nothing but bodies of one statement; at the end an open block is reported exactly if there is one;
and the scopes that are left are as many as there were before. -/
theorem braces_counted {host : Host} (hhost : host.Steady) (budget : Nat) (held : List Anchor)
    (lines : List SourceLine) (inFunction : Bool) (m : Machine) :
    let ctx := Session.context host budget held
    let base := m.env.scopes.depth
    let script := Script.ofLines lines
    ((m.env.scopes.current.isWaiting = true → script.items.head? ≠ some .blockOpen) ↔
      ∀ done items rest now, Underway base inFunction ctx script m done items rest now →
        now.env.scopes.openBlocks base + bracesClosed base done = bracesOpened done) ∧
    (∀ done items rest now,
      Underway base inFunction ctx script m done (.blockClose :: items) rest now →
      ∃ flow after, flow.returned? = none ∧
        runItem base inFunction .blockClose ctx now = (.ok flow, after) ∧
        (now.env.scopes.openBlocks base = 0 → ∃ count ≤ now.env.scopes.depth - base,
          (∀ scope ∈ now.env.scopes.inner.take count, scope.singleLine = true) ∧
          after = (now.withScopes (now.env.scopes.begun.without count)).report
            (.eval .unmatchedBrace)) ∧
        (0 < now.env.scopes.openBlocks base →
          after.events = now.events ∧ after.errorCount = now.errorCount)) ∧
    (∀ flow now, runScript base inFunction .nothing script ctx m = (.ok flow, now) →
      flow.returned? = none →
      (∃ done, Underway base inFunction ctx script m done [] [] now) ∧
        runLines lines inFunction ctx m =
          (.ok flow, (if 0 < now.env.scopes.openBlocks base then
              now.report (.eval .unterminatedBlock) else now).mapScopes (·.truncate base))) ∧
    (runLines lines inFunction ctx m).2.env.scopes.depth = base := by
  intro ctx base script
  have hctx : ctx.Restores := Session.context_restores hhost budget held
  have hbase : 1 ≤ base := Nat.succ_le_succ (Nat.zero_le _)
  refine ⟨⟨?counted, ?waiting⟩, ?unmatched, ?unterminated, ?depth⟩
  case counted =>
    intro hstart done items rest now hunderway
    exact (hunderway.counted hctx hstart).1
  case waiting =>
    intro hcounted hwaiting hfirst
    obtain ⟨done, items, rest, now, hunderway, huncounted⟩ :=
      uncounted_of_waiting inFunction ctx hwaiting hfirst
    exact huncounted (hcounted done items rest now hunderway)
  case unmatched =>
    intro done items rest now _
    obtain ⟨flow, hflow, hrun⟩ := runItem_blockClose base inFunction ctx now
    exact ⟨flow, _, hflow, hrun, afterClose_unmatched hbase, afterClose_matched hbase⟩
  case unterminated =>
    intro flow now hrun hflow
    refine ⟨Underway.start.runScript hrun hflow, ?_⟩
    rw [runLines_concluded, hrun]
    unfold concluded
    rw [ended_returned]
    dsimp only [Except.map]
    rw [hflow]
    exact congrArg (fun ended : Machine => (Except.ok flow, ended.mapScopes (·.truncate base)))
      (if_congr (now.env.scopes.openBlocks_pos hbase).symm rfl rfl)
  case depth => exact (runLines_restores hctx lines inFunction m).scopes.depth

/-- A new interpreter that waits for the body of an `if`. -/
def fedCondition : Machine :=
  (Machine.initial .standard (.shelf ⟨[]⟩)).mapScopes (·.push (.conditional .ifBody))

/-- So it does when it was fed the condition. -/
theorem fedCondition_fed :
    (Session.evalLine .none "if (true)" (.initial .standard (.shelf ⟨[]⟩))).2 = fedCondition := by
  cbv

/-- In a file that starts with a statement, all is counted. -/
theorem statement_first_counted :
    let ctx := Session.context .none 1 []
    let lines := SourceLine.split "1\n\x7b"
    Host.none.Steady ∧
      ∀ done items rest now,
        Underway 2 false ctx (Script.ofLines lines) fedCondition done items rest now →
          now.env.scopes.openBlocks 2 + bracesClosed 2 done = bracesOpened done := by
  intro ctx lines
  obtain ⟨⟨hcounted, -⟩, -⟩ := braces_counted Host.none_steady 1 [] lines false fedCondition
  have hdepth : fedCondition.env.scopes.depth = 2 := rfl
  rw [hdepth] at hcounted
  have hfirst : (Script.ofLines lines).items.head? = some (.expression (.literal (.int 1))) := by cbv
  refine ⟨Host.none_steady, hcounted fun _ hopen => ?_⟩
  rw [hfirst] at hopen
  cases hopen

/-- In a file that starts with a brace, that opens the body which the line before waits for. Then no
block of the file is open, and the brace that closes it is taken for an unmatched one. -/
theorem brace_first_uncounted :
    let ctx := Session.context .none 1 []
    let text := "\x7b\nprintln(1)\n\x7d"
    (¬∀ done items rest now,
      Underway 2 false ctx (Script.ofLines (SourceLine.split text)) fedCondition done items rest now →
        now.env.scopes.openBlocks 2 + bracesClosed 2 done = bracesOpened done) ∧
    (runLines (SourceLine.split text) false ctx fedCondition).2.events =
      [.error ":3: unmatched '\x7d'", .printed "1\n"] := by
  intro ctx text
  have hwaiting : fedCondition.env.scopes.current.isWaiting = true := rfl
  have hscript : Script.ofLines (SourceLine.split text) =
      [⟨1, .ok [.blockOpen]⟩,
        ⟨2, .ok [.expression (.call (.identifier "println") [.literal (.int 1)])]⟩,
        ⟨3, .ok [.blockClose]⟩] := by cbv
  have hfirst : (Script.ofLines (SourceLine.split text)).items.head? = some .blockOpen := by
    rw [hscript]
    rfl
  constructor
  · intro hcounted
    obtain ⟨done, items, rest, now, hunderway, huncounted⟩ :=
      uncounted_of_waiting false ctx hwaiting hfirst
    exact huncounted (hcounted done items rest now hunderway)
  · rw [runLines_concluded, hscript]
    decide +kernel

end Run

end BuildScript
