import BuildScript.Proofs.Program.Units
import BuildScript.Proofs.Run.Effects
import BuildScript.Proofs.Script.Lines
import BuildScript.Proofs.Scopes.Levels

/-!
Skipped code. Every item of it is still run, so that scopes open and close and the skipped part ends
where it should; but what an item holds is not looked at, so whatever is wrong with it stays unsaid.
-/

namespace BuildScript

namespace ScopeStack

variable {base : Nat} {before after : ScopeStack}

/-- What skipped code may do to the scopes: open a block or the body that waits for one, open the
body of an `if` or `else`, and close scopes above the first `base`. -/
inductive Reshaped (base : Nat) (before : ScopeStack) : ScopeStack → Prop
  | opened : Reshaped base before before.opened
  | branch (state : BlockState) (hskipped : state.isSkipped = true) :
      Reshaped base before (before.begun.push (.conditional state))
  | closed (count : Nat) (habove : count ≤ before.depth - base) :
      Reshaped base before (before.begun.without count)

theorem bindingsAt_begun (stack : ScopeStack) (level : Nat) :
    stack.begun.bindingsAt level = stack.bindingsAt level := by
  unfold begun
  apply bindingsAt_mapCurrent
  intro scope
  rfl

theorem bindingsAt_opened (stack : ScopeStack) (level : Nat) :
    stack.opened.bindingsAt level = stack.bindingsAt level := by
  unfold opened
  split
  · apply bindingsAt_mapCurrent
    intro scope
    rfl
  · exact bindingsAt_push stack rfl level

theorem length_begun (stack : ScopeStack) : stack.begun.inner.length = stack.inner.length :=
  (Within.begun stack).length_inner

theorem depth_without (stack : ScopeStack) (count : Nat) :
    (stack.without count).depth = stack.inner.length - count + 1 := by
  unfold depth without
  rw [List.length_drop]

theorem without_without (stack : ScopeStack) (first second : Nat) :
    (stack.without first).without second = stack.without (first + second) := by
  unfold without
  rw [List.drop_drop]

theorem pop_without (stack : ScopeStack) : stack.pop.2 = stack.without 1 := by
  obtain ⟨inner, names⟩ := stack
  cases inner <;> rfl

/-- The scopes that are left bind what they bound. -/
theorem Reshaped.bindingsAt (h : Reshaped base before after) (level : Nat) :
    after.bindingsAt level = before.bindingsAt level ∨ after.bindingsAt level = [] := by
  cases h with
  | opened => exact .inl (bindingsAt_opened before level)
  | branch state hskipped =>
    left
    rw [bindingsAt_push _ rfl, bindingsAt_begun]
  | closed count habove =>
    rw [bindingsAt_without, bindingsAt_begun]
    split
    · exact .inl rfl
    · exact .inr rfl

/-- No scope of the first `base` is closed. -/
theorem Reshaped.bindingsAt_below (h : Reshaped base before after) {level : Nat}
    (hlevel : level < base) : after.bindingsAt level = before.bindingsAt level := by
  cases h with
  | opened => exact bindingsAt_opened before level
  | branch state hskipped => rw [bindingsAt_push _ rfl, bindingsAt_begun]
  | closed count habove =>
    unfold depth at habove
    rw [bindingsAt_without, bindingsAt_begun, length_begun]
    split
    · rfl
    · rename_i hgone
      exact (bindingsAt_above before (by omega)).symm

/-- A variable that is left stands for what it stood for. -/
theorem Reshaped.slotOf (h : Reshaped base before after) {x : Variable} {slot : Slot}
    (hslot : after.slotOf x = some slot) : before.slotOf x = some slot := by
  unfold ScopeStack.slotOf at hslot ⊢
  rcases h.bindingsAt x.level with hsame | hgone
  · rwa [← hsame]
  · rw [hgone] at hslot
    cases hslot

theorem hasOpenBlock_begun (stack : ScopeStack) (base : Nat) :
    stack.begun.hasOpenBlock base = stack.hasOpenBlock base := by
  obtain ⟨inner, names⟩ := stack
  cases inner with
  | nil => rfl
  | cons scope rest =>
    show (base == 0 || (List.take (rest.length + 1 + 1 - base) (_ :: rest)).any _) =
      (base == 0 || (List.take (rest.length + 1 + 1 - base) (_ :: rest)).any _)
    cases rest.length + 1 + 1 - base <;> rfl

/-- A braced block above the first `base` scopes is what remains when the single statement bodies
in front of it are closed. -/
theorem hasOpenBlock_iff (stack : ScopeStack) (base : Nat) :
    stack.hasOpenBlock base = true ↔
      base < (stack.without (Run.openSingles base stack.inner)).depth := by
  obtain ⟨inner, names⟩ := stack
  unfold hasOpenBlock without depth
  dsimp only
  induction inner with
  | nil => simp [Run.openSingles]
  | cons scope rest ih =>
    unfold Run.openSingles
    split
    · rename_i hsingle
      simp only [Bool.and_eq_true, decide_eq_true_eq] at hsingle
      obtain ⟨hdepth, hsingle⟩ := hsingle
      have htake : (scope :: rest).length + 1 - base = rest.length + 1 - base + 1 := by
        simp only [List.length_cons]
        omega
      rw [htake, List.take_succ_cons, List.any_cons, hsingle, List.drop_succ_cons]
      exact ih
    · rename_i hsingle
      simp only [Bool.and_eq_true, decide_eq_true_eq, not_and] at hsingle
      rw [List.drop_zero, List.length_cons]
      by_cases hdepth : base < rest.length + 2
      · have htake : rest.length + 1 + 1 - base = rest.length + 1 - base + 1 := by omega
        rw [htake, List.take_succ_cons, List.any_cons, Bool.eq_false_iff.mpr (hsingle hdepth)]
        simp [hdepth]
      · have htake : rest.length + 1 + 1 - base = 0 := by omega
        rw [htake]
        simp
        omega

end ScopeStack

namespace Item

/-- What is left of an item that is not looked into. -/
inductive Outline where
  | condition
  | elseMark
  | blockOpen
  | blockClose
  | statement
  | malformed
  deriving DecidableEq

def outline : Item → Outline
  | condition _ => .condition
  | elseMark => .elseMark
  | blockOpen => .blockOpen
  | blockClose => .blockClose
  | giveBack _ | expression _ | declaration _ _ | rejected _ => .statement
  | malformed _ => .malformed

end Item

namespace Program

variable {base : Nat} {inFunction : Bool} {ctx : Context} {m : Machine}

/-- A closing brace closes the block in front of it, above the first `base` scopes, and with it the
statement that the block is; where there is none it is reported. -/
def afterClose (base : Nat) (m : Machine) : Machine :=
  let stack := m.env.scopes.without (Run.openSingles base m.env.scopes.inner)
  if stack.depth ≤ base then (m.withScopes stack).report (.eval .unmatchedBrace)
  else
    finished base (((stack.pop).1.map (Run.blockOutcome ·.state)).getD none)
      (m.withScopes stack.pop.2)

theorem closeBlock_afterClose (m : Machine) :
    ∃ flow : Flow, flow.returned? = none ∧
      Run.closeBlock base ctx m = (.ok flow, afterClose base m) := by
  have hsingles : Run.updateScopes (fun stack =>
      { stack with inner := stack.inner.drop (Run.openSingles base stack.inner) }) ctx m =
      (.ok (), m.withScopes (m.env.scopes.without (Run.openSingles base m.env.scopes.inner))) := rfl
  unfold Run.closeBlock afterClose
  rw [Eval.andThen_apply_ok hsingles]
  generalize m.env.scopes.without (Run.openSingles base m.env.scopes.inner) = stack
  rw [Eval.andThen_apply_ok (show Run.scopes ctx (m.withScopes stack) =
    (.ok stack, m.withScopes stack) from rfl)]
  dsimp only
  split
  · rw [Eval.andThen_apply_ok (Eval.recover_common rfl ctx (m.withScopes stack))]
    exact ⟨.error, rfl, rfl⟩
  · generalize (stack.pop.1.map (Run.blockOutcome ·.state)).getD none = outcome
    obtain ⟨completed, hcompleted, hcomplete⟩ := @completeStatement_apply base ctx outcome
      (m.withScopes stack.pop.2)
    have hpop : Run.updateScopes (fun _ => stack.pop.2) ctx (m.withScopes stack) =
        (.ok (), m.withScopes stack.pop.2) := rfl
    rw [Eval.andThen_apply_ok hpop, Eval.andThen_apply_ok hcomplete]
    refine ⟨_, ?_, rfl⟩
    cases completed with
    | none => rcases outcome with _ | _ | _ <;> rfl
    | some flow => exact hcompleted flow rfl

/-- The machine after an item that is skipped. -/
def passedOver (base : Nat) (outline : Item.Outline) (m : Machine) : Machine :=
  match outline with
  | .condition =>
    { m with lastIf := none }.mapScopes fun stack => stack.begun.push (.conditional .skippedIf)
  | .elseMark =>
    { m with lastIf := none }.mapScopes fun stack => stack.begun.push (.conditional .skippedElse)
  | .blockOpen => { m with lastIf := none }.mapScopes (·.opened)
  | .blockClose => afterClose base (m.mapScopes (·.begun))
  | .statement => finished base none (m.mapScopes (·.begun))
  | .malformed => m.mapScopes (·.begun)

/-- A skipped item is not looked into: what it does depends on its outline alone. -/
theorem runItem_passedOver (hskipped : m.env.scopes.current.skipping = true) (item : Item) :
    ∃ flow : Flow, flow.returned? = none ∧
      Run.runItem base inFunction item ctx m = (.ok flow, passedOver base item.outline m) := by
  by_cases hopen : item = .blockOpen
  · subst hopen
    exact ⟨.nothing, rfl, rfl⟩
  have hbegin := @beginItem_skipped ctx m item hopen hskipped
  have hfinish (flow : Flow) (hflow : flow.returned? = none) :=
    @finishStatement_apply base ctx flow hflow (m.mapScopes (·.begun))
  unfold Run.runItem
  rw [Eval.andThen_apply_ok hbegin]
  cases item with
  | condition condition => exact ⟨.nothing, rfl, rfl⟩
  | elseMark =>
    refine ⟨.elseMark, rfl, ?_⟩
    dsimp only
    rw [@enterElse_paired ctx (m.mapScopes (·.begun)) true (.inl rfl)]
    rfl
  | blockOpen => exact absurd rfl hopen
  | blockClose => exact closeBlock_afterClose (m.mapScopes (·.begun))
  | giveBack expr => exact hfinish .nothing rfl
  | expression expr => exact hfinish .nothing rfl
  | declaration header body =>
    cases body with
    | error e => exact hfinish .error rfl
    | ok body => exact hfinish .nothing rfl
  | rejected error => exact hfinish .error rfl
  | malformed error => exact ⟨.error, rfl, rfl⟩

/-- The single statement bodies that a finished statement closes lie above the first `base`
scopes. -/
theorem finished_scopes (outcome : Option Bool) (m : Machine) :
    ∃ count lastIf, count ≤ m.env.scopes.inner.length - (base - 1) ∧
      finished base outcome m = { m.mapScopes (·.without count) with lastIf } := by
  have hle := ScopeStack.openSingles_le base m.env.scopes.inner
  have hclosed := @Run.closeSingles_closed base outcome m.env.scopes.inner 0
  refine ⟨_, _, ?_, rfl⟩
  omega

/-- What a skipped item leaves differs from what it found in the scopes, in what the last `if` did,
and, for a brace that closes nothing, in the report that says so. -/
theorem passedOver_inert (outline : Item.Outline) (m : Machine) :
    ∃ scopes lastIf, m.env.scopes.Reshaped base scopes ∧
      passedOver base outline m =
        if outline = .blockClose ∧ m.env.scopes.hasOpenBlock base = false then
          { m.withScopes scopes with lastIf }.report (.eval .unmatchedBrace)
        else { m.withScopes scopes with lastIf } := by
  cases outline with
  | condition => exact ⟨_, none, .branch .skippedIf rfl, rfl⟩
  | elseMark => exact ⟨_, none, .branch .skippedElse rfl, rfl⟩
  | blockOpen => exact ⟨_, none, .opened, rfl⟩
  | malformed => exact ⟨_, m.lastIf, .closed 0 (Nat.zero_le _), rfl⟩
  | statement =>
    obtain ⟨count, lastIf, hcount, hfinished⟩ :=
      @finished_scopes base none (m.mapScopes (·.begun))
    have habove : count ≤ m.env.scopes.depth - base := by
      change count ≤ m.env.scopes.begun.inner.length - (base - 1) at hcount
      rw [ScopeStack.length_begun] at hcount
      unfold ScopeStack.depth
      omega
    exact ⟨_, lastIf, .closed count habove, hfinished⟩
  | blockClose =>
    have hopen := m.env.scopes.begun.hasOpenBlock_iff base
    have hle := ScopeStack.openSingles_le base m.env.scopes.begun.inner
    rw [ScopeStack.hasOpenBlock_begun] at hopen
    rw [ScopeStack.length_begun] at hle
    unfold passedOver afterClose
    dsimp only [Machine.mapScopes]
    generalize Run.openSingles base m.env.scopes.begun.inner = singles at hle hopen ⊢
    split
    · rename_i hnone
      have hclosed : m.env.scopes.hasOpenBlock base = false := by
        rw [Bool.eq_false_iff, Ne, hopen]
        omega
      have hsingles : singles ≤ m.env.scopes.depth - base := by
        unfold ScopeStack.depth
        omega
      refine ⟨_, m.lastIf, .closed singles hsingles, ?_⟩
      rw [if_pos ⟨rfl, hclosed⟩]
      rfl
    · rename_i hsome
      have hblock : ¬ m.env.scopes.hasOpenBlock base = false := by
        rw [Bool.not_eq_false, hopen]
        omega
      generalize houtcome : ((m.env.scopes.begun.without singles).pop.1.map
        (Run.blockOutcome ·.state)).getD none = outcome
      obtain ⟨count, lastIf, hcount, hfinished⟩ := @finished_scopes base outcome
        (m.withScopes (m.env.scopes.begun.without singles).pop.2)
      rw [ScopeStack.pop_without, ScopeStack.without_without] at hfinished hcount ⊢
      have habove : singles + 1 + count ≤ m.env.scopes.depth - base := by
        change count ≤ (m.env.scopes.begun.inner.drop (singles + 1)).length - (base - 1) at hcount
        rw [List.length_drop, ScopeStack.length_begun] at hcount
        rw [ScopeStack.depth_without, ScopeStack.length_begun] at hsome
        unfold ScopeStack.depth
        omega
      refine ⟨_, lastIf, .closed (singles + 1 + count) habove, ?_⟩
      rw [if_neg (fun h => hblock h.2), ← ScopeStack.without_without _ (singles + 1)]
      exact hfinished

/-- Skipped code has no effect. Whatever is in the item, and whatever running a body or calling the
embedding program would do, the same scopes are opened or closed, the variables that are left are
the ones that were there, and nothing else happens, but that a brace which closes nothing is
reported. Lines are taken for the body of a declaration only, and reading takes them before any of
the line runs. -/
theorem skipped_inert (hskipped : m.env.scopes.current.skipping = true) (item : Item) :
    (∃ scopes lastIf, m.env.scopes.Reshaped base scopes ∧
      (∀ x slot, scopes.slotOf x = some slot → m.env.scopes.slotOf x = some slot) ∧
      (∀ x : Variable, x.level < base → scopes.slotOf x = m.env.scopes.slotOf x) ∧
      ∀ (ctx : Context) (inFunction : Bool) (other : Item), other.outline = item.outline →
        ∃ flow : Flow, flow.returned? = none ∧
          Run.runItem base inFunction other ctx m =
            (.ok flow,
              if item.outline = .blockClose ∧ m.env.scopes.hasOpenBlock base = false then
                { m.withScopes scopes with lastIf }.report (.eval .unmatchedBrace)
              else { m.withScopes scopes with lastIf })) ∧
    ∀ (number : Nat) (tokens : List Token) (rest : List Text.SourceLine),
      (Item.ofTokens number tokens rest).2 <:+ rest ∧
        ((∀ item ∈ (Item.ofTokens number tokens rest).1, item.declares = false) →
          (Item.ofTokens number tokens rest).2 = rest) := by
  refine ⟨?_, Item.ofTokens_lines⟩
  obtain ⟨scopes, lastIf, hreshaped, hafter⟩ := @passedOver_inert base item.outline m
  refine ⟨scopes, lastIf, hreshaped, fun x slot => hreshaped.slotOf, ?_, ?_⟩
  · intro x hlevel
    unfold ScopeStack.slotOf
    rw [hreshaped.bindingsAt_below hlevel]
  · intro ctx inFunction other hother
    obtain ⟨flow, hflow, hrun⟩ := @runItem_passedOver base inFunction ctx m hskipped other
    refine ⟨flow, hflow, ?_⟩
    rw [hrun, hother, hafter]

/-- A new interpreter in the body of an `if` whose condition does not hold. -/
def inSkippedBody : Machine :=
  (Machine.initial .standard (.shelf ⟨[]⟩)).withScopes
    (ScopeStack.empty.push (.conditional .skippedIf))

/-- A skipped `println(1)` prints nothing. -/
theorem skipped_println_inert :
    inSkippedBody.env.scopes.current.skipping = true ∧
      (Run.runItem 1 false (.expression (.call (.identifier "println") [.literal (.int 1)]))
        (Session.context .none 1 []) inSkippedBody).2.events = [] := by
  have hskipped : inSkippedBody.env.scopes.current.skipping = true := rfl
  obtain ⟨⟨scopes, lastIf, -, -, -, hrun⟩, -⟩ := @skipped_inert 1 inSkippedBody hskipped
    (.expression (.call (.identifier "println") [.literal (.int 1)]))
  obtain ⟨flow, -, hrun⟩ := hrun (Session.context .none 1 []) false _ rfl
  rw [hrun, if_neg (by simp [Item.outline])]
  exact ⟨hskipped, rfl⟩

end Program

end BuildScript
