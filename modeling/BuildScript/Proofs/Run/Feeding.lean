import BuildScript.Proofs.Run.Moves
import BuildScript.Proofs.Script.Lines

/-!
Lines fed while a script runs. They run above the global scope only, also when the script that goes
on afterwards is inside of bodies and calls: at the end of a statement they close the bodies without
braces that are innermost, whoever opened them, and a closing brace closes a block. What they leave
of the scopes of the script can be read off the outlines of their items. Lines that close what they
open leave a script alone that does not stand in such a body.
-/

namespace BuildScript

open Item (Outline)
open Machine (Restores)
open Session (flags flags_eq)

namespace Run

variable {ctx : Context} {m after : Machine}

/-- What is run of the items of a line, by their outlines: all of them, or those before one that a
fault unwinds. -/
inductive Performs : List Outline → List Outline → Prop
  | nil : Performs [] []
  | cons (outline : Outline) {rest own : List Outline} (h : Performs rest own) :
    Performs (outline :: rest) (outline :: own)
  | unwound (outline : Outline) (rest : List Outline) : Performs (outline :: rest) [.malformed]

/-- A run of the items of a fed line, with evaluations that leave the scopes as they were. A fault
that unwinds an item ends the line and is reported. -/
inductive Fed (ctx : Context) : List Item → List Outline → Machine → Machine → Prop
  | nil (m : Machine) : Fed ctx [] [] m m
  | cons {item : Item} {rest : List Item} {own : List Outline} {m between after : Machine}
    {flow : Flow} (hgentle : item.Gentle ctx m)
    (hrun : runItem 1 false item ctx m = (.ok flow, between))
    (hrest : Fed ctx rest own between after) : Fed ctx (item :: rest) (item.outline :: own) m after
  | unwound {item : Item} {m between : Machine} {fault : Fault} (rest : List Item)
    (hgentle : item.Gentle ctx m)
    (hrun : runItem 1 false item ctx m = (.error fault, between)) :
    Fed ctx (item :: rest) [.malformed] m (between.report fault)

namespace Fed

variable {items : List Item} {own : List Outline}

theorem runItems (h : Fed ctx items own m after) {flow : Flow} (hflow : flow.returned? = none) :
    (∃ flow' : Flow, flow'.returned? = none ∧
      Run.runItems 1 false flow items ctx m = (.ok flow', after)) ∨
    ∃ fault left, Run.runItems 1 false flow items ctx m = (.error fault, left) ∧
      after = left.report fault := by
  induction h generalizing flow with
  | nil m => exact .inl ⟨flow, hflow, rfl⟩
  | cons hgentle hrun hrest ih =>
    have hreturned := (runItem_moved hgentle hrun).1
    rw [Program.runItems_cons, hrun, goOn_none hreturned]
    exact ih hreturned
  | unwound rest hgentle hrun =>
    rw [Program.runItems_cons, hrun]
    exact .inr ⟨_, _, rfl, rfl⟩

theorem performs (h : Fed ctx items own m after) : Performs (items.map Item.outline) own := by
  induction h with
  | nil m => exact .nil
  | cons hgentle hrun hrest ih => exact .cons _ ih
  | unwound rest hgentle hrun => exact .unwound _ _

/-- Outside of calls no fault unwinds an item. -/
theorem whole (h : Fed ctx items own m after) (hdepth : m.callDepth = 0) :
    own = items.map Item.outline := by
  induction h with
  | nil m => rfl
  | cons hgentle hrun hrest ih =>
    rw [List.map_cons, ih ((runItem_moved hgentle hrun).2.callDepth.trans hdepth)]
  | unwound rest hgentle hrun =>
    exact absurd (runItem_unwound hgentle hrun).2 (Nat.not_lt.mpr (Nat.le_of_eq hdepth))

theorem depths (h : Fed ctx items own m after) :
    after.callDepth = m.callDepth ∧ after.includeDepth = m.includeDepth := by
  induction h with
  | nil m => exact ⟨rfl, rfl⟩
  | cons hgentle hrun hrest ih =>
    obtain ⟨-, hmoved⟩ := runItem_moved hgentle hrun
    exact ⟨ih.1.trans hmoved.callDepth, ih.2.trans hmoved.includeDepth⟩
  | unwound rest hgentle hrun =>
    obtain ⟨hmoved, -⟩ := runItem_unwound hgentle hrun
    exact ⟨hmoved.callDepth, hmoved.includeDepth⟩

/-- The nesting of the scopes follows the outlines. -/
theorem tracks (h : Fed ctx items own m after) {a : ScopeStack} {nesting : Nesting}
    (htracks : nesting.Tracks a m.env.scopes) : (nesting.run own).Tracks a after.env.scopes := by
  induction h generalizing nesting with
  | nil m => exact htracks
  | cons hgentle hrun hrest ih => exact ih ((runItem_moved hgentle hrun).2.scopes.tracks htracks)
  | unwound rest hgentle hrun => exact (runItem_unwound hgentle hrun).1.scopes.tracks htracks

/-- Where calls restore the surroundings of the script, all items can be fed. -/
theorem of_restores (h : ctx.Restores) (items : List Item) (m : Machine) :
    ∃ own after, Fed ctx items own m after := by
  induction items generalizing m with
  | nil => exact ⟨[], m, .nil m⟩
  | cons item rest ih =>
    cases hrun : runItem 1 false item ctx m with
    | mk result between =>
      cases result with
      | ok flow =>
        obtain ⟨own, after, hrest⟩ := ih between
        exact ⟨_, after, .cons (item.gentle h m) hrun hrest⟩
      | error fault => exact ⟨_, _, .unwound rest (item.gentle h m) hrun⟩

end Fed

/-- What the end of a statement closes and remembers depends on the flags of the scopes only. -/
theorem closeSingles_flags (base : Nat) (outcome : Option Bool) {scopes scopes' : List Scope}
    (h : scopes'.map flags = scopes.map flags) (closed : Nat) :
    closeSingles base outcome scopes' closed = closeSingles base outcome scopes closed := by
  induction scopes generalizing scopes' outcome closed with
  | nil =>
    cases scopes' with
    | nil => rfl
    | cons scope' rest' => cases h
  | cons scope rest ih =>
    cases scopes' with
    | nil => cases h
    | cons scope' rest' =>
      obtain ⟨hscope, hrest⟩ := List.cons.inj h
      unfold flags at hscope
      simp only [Prod.mk.injEq] at hscope
      obtain ⟨-, hstate, hsingle, -⟩ := hscope
      have hlength : rest'.length = rest.length := by
        rw [← List.length_map flags, ← List.length_map flags, hrest]
      unfold closeSingles
      rw [hlength, hsingle, hstate, ih _ hrest]

theorem finished_flags (base : Nat) (outcome : Option Bool)
    (h : after.env.scopes.inner.map flags = m.env.scopes.inner.map flags) :
    (Program.finished base outcome after).env.scopes.inner.map flags =
        (Program.finished base outcome m).env.scopes.inner.map flags ∧
      (Program.finished base outcome after).lastIf = (Program.finished base outcome m).lastIf := by
  have hclosing := closeSingles_flags base outcome h 0
  unfold Program.finished
  dsimp only
  rw [hclosing]
  refine ⟨?_, rfl⟩
  show (after.env.scopes.inner.drop _).map flags = (m.env.scopes.inner.drop _).map flags
  rw [List.map_drop, List.map_drop, h]

/-- What is being evaluated around two machines ends as if nothing had come between them. A statement
leaves the flags of the scopes and the last `if` that `0` would leave. A condition opens the body of
its `if` on top of the scopes; only something that follows it directly and is no body sees an `if`
from in between. -/
structure Resumes (m after : Machine) : Prop where
  statement : ∀ (base : Nat) (inFunction : Bool) (ctx : Context) (expr : Expr) (before left : Machine)
    (flow : Flow), before.env.scopes.current.skipping = false →
      (before.mapScopes (·.begun)).Restores m →
      after.Restores (expressionFlow expr ctx (before.mapScopes (·.begun))).2 →
      runItem base inFunction (.expression expr) ctx before = (.ok flow, left) →
        left.env.scopes.inner.map flags = (completed base before).env.scopes.inner.map flags ∧
          left.lastIf = (completed base before).lastIf
  condition : ∀ (base : Nat) (inFunction : Bool) (ctx : Context) (test : Except SyntaxError Expr)
    (before left : Machine) (flow : Flow), before.env.scopes.current.skipping = false →
      let start := { before.mapScopes (·.begun) with lastIf := none }
      let tested := conditionHolds test ctx start
      start.Restores m → after.Restores tested.2 →
      runItem base inFunction (.condition test) ctx before = (.ok flow, left) →
        left.env.scopes.inner.map flags =
            (before.env.scopes.begun.push (.conditional (bodyState tested.1))).inner.map flags ∧
          left.lastIf = tested.2.lastIf

theorem push_flags {a b : ScopeStack} (h : a.Within b) (hsettled : a.current.isWaiting = false)
    (scope : Scope) : (b.push scope).inner.map flags = (a.push scope).inner.map flags := by
  unfold ScopeStack.push
  dsimp only
  rw [List.map_cons, List.map_cons, h.current.skipping, flags_eq h hsettled]

/-- What restores the scopes lets the evaluation around it go on. -/
theorem resumes (h : m.Restores after) : Resumes m after where
  statement base inFunction ctx expr before left flow hlive hreached hended hrun := by
    have hrestores := Restores.chains.trans (Restores.chains.trans hreached h) hended
    have hitem : Item.expression expr ≠ .blockOpen := by
      intro heq
      cases heq
    unfold runItem at hrun
    rw [Eval.andThen_apply_ok (Program.beginItem_running hitem hlive)] at hrun
    dsimp only at hrun
    rw [if_neg Bool.false_ne_true] at hrun
    obtain ⟨flow', between, hguarded, hfinished⟩ := Eval.andThen_ok hrun
    obtain ⟨flow'', -, hfinish⟩ := @Program.finishStatement_apply base ctx flow'
      (Program.guarded_returned hguarded) between
    rw [hfinish] at hfinished
    cases hfinished
    exact finished_flags base none (flags_eq (guarded_restores hrestores hguarded).scopes
      (ScopeStack.begun_isWaiting before.env.scopes))
  condition base inFunction ctx test before left flow hlive := by
    intro start tested hreached hended hrun
    have hrestores := Restores.chains.trans (Restores.chains.trans hreached h) hended
    have hitem : Item.condition test ≠ .blockOpen := by
      intro heq
      cases heq
    unfold runItem at hrun
    rw [Eval.andThen_apply_ok (Program.beginItem_running hitem hlive)] at hrun
    dsimp only at hrun
    rcases @enterIf_apply ctx (conditionHolds test) (before.mapScopes (·.begun)) with
      ⟨opened, hopened, henter⟩ | ⟨fault, henter, -⟩
    · rw [Eval.andThen_apply_ok henter] at hrun
      cases hrun
      have hscopes : opened.env.scopes = tested.2.env.scopes ∧ opened.lastIf = tested.2.lastIf := by
        rcases hopened with rfl | ⟨fault, rfl⟩ <;> exact ⟨rfl, rfl⟩
      refine ⟨?_, hscopes.2⟩
      show (opened.env.scopes.push _).inner.map flags = _
      rw [hscopes.1]
      exact push_flags hrestores.scopes (ScopeStack.begun_isWaiting before.env.scopes) _
    · rw [Eval.andThen_apply_error henter] at hrun
      cases hrun

end Run

namespace Body

/-- Where the line of a header is in the file does not show in where its body ends. -/
theorem capture_number (name : String) (number number' : Nat) (tokens : List Token) :
    ((capture name number tokens []).1.map (·.resume)) =
        ((capture name number' tokens []).1.map (·.resume)) ∧
      (capture name number tokens []).2 = [] := by
  unfold capture
  cases tokens with
  | nil => exact ⟨rfl, rfl⟩
  | cons first others =>
    dsimp only
    split
    · split
      · exact ⟨rfl, rfl⟩
      · exact ⟨rfl, rfl⟩
    · exact ⟨rfl, rfl⟩

end Body

namespace Item

/-- What comes after a body is read from where the body ends, and where it ends is all that counts. -/
theorem outlines_afterBody {number number' : Nat} {header : Header} {tokens : List Token}
    {captured captured' : Except SyntaxError Body.Captured}
    (hresume : captured.map (·.resume) = captured'.map (·.resume))
    (hbehind : ∀ end', (ofTokens number (tokens.drop end') []).1.map outline =
      (ofTokens number' (tokens.drop end') []).1.map outline) :
    (afterBody number header tokens captured []).1.map outline =
      (afterBody number' header tokens captured' []).1.map outline := by
  cases captured with
  | error e =>
    cases captured' with
    | error e' => rfl
    | ok read' => cases hresume
  | ok read =>
    cases captured' with
    | error e' => cases hresume
    | ok read' =>
      obtain ⟨body, resume⟩ := read
      obtain ⟨body', resume'⟩ := read'
      obtain rfl : resume = resume' := Except.ok.inj hresume
      cases resume with
      | none => rfl
      | some end' => exact congrArg (_ :: ·) (hbehind end')

/-- Where a line is in the file does not show in the outlines of its items. -/
theorem outlines_number (number number' : Nat) (tokens : List Token) :
    (ofTokens number tokens []).1.map outline = (ofTokens number' tokens []).1.map outline := by
  induction hlength : tokens.length using Nat.strongRecOn generalizing tokens with
  | ind length ih =>
    cases tokens with
    | nil => rw [ofTokens, ofTokens]
    | cons token tokens =>
      have hrest (others : List Token) (h : others <:+ tokens) :
          (ofTokens number others []).1.map outline = (ofTokens number' others []).1.map outline :=
        ih _ (hlength ▸ Nat.lt_succ_of_le h.length_le) others rfl
      cases hread : Clause.read? token tokens with
      | none =>
        rw [ofTokens_empty hread, ofTokens_empty hread]
        exact hrest tokens List.suffix_rfl
      | some read =>
        obtain ⟨clause, n⟩ := read
        cases hclause : ofClause clause with
        | inl item =>
          rw [ofTokens_item hread hclause, ofTokens_item hread hclause]
          exact congrArg (item.outline :: ·) (hrest _ (List.drop_suffix n tokens))
        | inr header =>
          -- the two captured bodies differ in the numbers of their lines, not in where they end
          obtain ⟨hresume, hnone⟩ := Body.capture_number header.name number number' (tokens.drop n)
          obtain ⟨-, hnone'⟩ := Body.capture_number header.name number' number (tokens.drop n)
          rw [ofTokens_declaration hread hclause, ofTokens_declaration hread hclause, hnone, hnone']
          refine outlines_afterBody hresume fun end' => hrest _ ?_
          exact (List.drop_suffix end' _).trans (List.drop_suffix n tokens)

end Item

namespace Session

/-- The outlines of the items of a line. A line that does not lex has none. -/
def outlines (text : String) : List Outline :=
  match Lexed.ofLine text with
  | .ok lexed => (Item.ofTokens 0 lexed.tokens []).1.map Item.outline
  | .error _ => []

/-- Feeds lines, one after another. -/
def feedLines (reentry : Reentry) (texts : List String) (m : Machine) : Machine :=
  texts.foldl (fun m text => (reentry.evalLine text m).2) m

/-- Lines that are fed, with evaluations that leave the scopes as they were, and what is run of each
of them. -/
inductive Feeds (ctx : Context) : List String → List (List Outline) → Machine → Machine → Prop
  | nil (m : Machine) : Feeds ctx [] [] m m
  | unlexed {text : String} {rest : List String} {others : List (List Outline)} {m after : Machine}
    {error : SyntaxError} (htext : Lexed.ofLine text = .error error)
    (hrest : Feeds ctx rest others (m.report (.parse error)) after) :
    Feeds ctx (text :: rest) ([] :: others) m after
  | line {text : String} {rest : List String} {own : List Outline} {others : List (List Outline)}
    {m between after : Machine} {lexed : Lexed} (htext : Lexed.ofLine text = .ok lexed)
    (hitems : Run.Fed ctx (Item.ofTokens m.line lexed.tokens []).1 own m between)
    (hrest : Feeds ctx rest others between after) : Feeds ctx (text :: rest) (own :: others) m after

variable {ctx : Context} {texts : List String} {performed : List (List Outline)} {m after : Machine}

/-- A line is given back to its caller as its items leave the machine. -/
theorem feedLine_fed {text : String} {lexed : Lexed} {own : List Outline}
    (htext : Lexed.ofLine text = .ok lexed)
    (hitems : Run.Fed ctx (Item.ofTokens m.line lexed.tokens []).1 own m after) :
    ∃ flow, feedLine text ctx m = (.ok flow, after) := by
  have hrun := hitems.runItems (show Flow.nothing.returned? = none from rfl)
  have hline := @Program.runLine_returned 1 false ctx (Item.ofTokens m.line lexed.tokens []).1 m
  unfold feedLine
  rw [htext]
  dsimp only
  unfold feedTokens
  rw [Eval.andThen_apply, Eval.machine_apply]
  dsimp only
  unfold settle
  rw [Eval.andThen_apply, Eval.attempt_apply]
  generalize Run.runLine 1 false (Item.ofTokens m.line lexed.tokens []).1 ctx m = ran at hline ⊢
  obtain ⟨result, left⟩ := ran
  rcases hrun with ⟨flow, -, hrun⟩ | ⟨fault, unwound, hrun, rfl⟩
  · rw [hrun] at hline
    obtain ⟨hresult, rfl⟩ := Prod.mk.inj hline
    cases result with
    | error fault => cases hresult
    | ok flow' => exact ⟨flow', rfl⟩
  · rw [hrun] at hline
    obtain ⟨hresult, rfl⟩ := Prod.mk.inj hline
    cases result with
    | ok flow => cases hresult
    | error fault' =>
      obtain rfl := Except.error.inj hresult
      exact ⟨.error, rfl⟩

namespace Feeds

/-- Feeding such lines leads to the machine that they are run to. -/
theorem feedLines (h : Feeds ctx texts performed m after) :
    feedLines (reentry ctx) texts m = after := by
  induction h with
  | nil m => rfl
  | @unlexed text rest others m after error htext hrest ih =>
    have hfed : feedLine text ctx m = (.ok .error, m.report (.parse error)) := by
      unfold feedLine
      rw [htext]
      rfl
    have hline : ((reentry ctx).evalLine text m).2 = m.report (.parse error) := by
      unfold reentry
      dsimp only
      rw [hfed]
    show Session.feedLines (reentry ctx) rest ((reentry ctx).evalLine text m).2 = after
    rw [hline]
    exact ih
  | @line text rest own others m between after lexed htext hitems hrest ih =>
    obtain ⟨flow, hfed⟩ := feedLine_fed htext hitems
    have hline : ((reentry ctx).evalLine text m).2 = between := by
      unfold reentry
      dsimp only
      rw [hfed]
    show Session.feedLines (reentry ctx) rest ((reentry ctx).evalLine text m).2 = after
    rw [hline]
    exact ih

/-- The outlines of a line are those of its items, wherever it is fed. -/
theorem outlines_line {text : String} {lexed : Lexed} (htext : Lexed.ofLine text = .ok lexed)
    (number : Nat) :
    outlines text = (Item.ofTokens number lexed.tokens []).1.map Item.outline := by
  unfold outlines
  rw [htext]
  exact Item.outlines_number 0 number lexed.tokens

theorem outlines_unlexed {text : String} {error : SyntaxError}
    (htext : Lexed.ofLine text = .error error) : outlines text = [] := by
  unfold outlines
  rw [htext]

theorem performs (h : Feeds ctx texts performed m after) :
    List.Forall₂ Run.Performs (texts.map outlines) performed := by
  induction h with
  | nil m => exact .nil
  | unlexed htext hrest ih => exact .cons (outlines_unlexed htext ▸ .nil) ih
  | line htext hitems hrest ih => exact .cons (outlines_line htext _ ▸ hitems.performs) ih

theorem depths (h : Feeds ctx texts performed m after) :
    after.callDepth = m.callDepth ∧ after.includeDepth = m.includeDepth := by
  induction h with
  | nil m => exact ⟨rfl, rfl⟩
  | unlexed htext hrest ih => exact ih
  | line htext hitems hrest ih =>
    exact ⟨ih.1.trans hitems.depths.1, ih.2.trans hitems.depths.2⟩

/-- The nesting of the scopes follows the outlines. -/
theorem tracks (h : Feeds ctx texts performed m after) {a : ScopeStack} {nesting : Nesting}
    (htracks : nesting.Tracks a m.env.scopes) :
    (nesting.run performed.flatten).Tracks a after.env.scopes := by
  induction h generalizing nesting with
  | nil m => exact htracks
  | unlexed htext hrest ih => exact ih htracks
  | line htext hitems hrest ih =>
    have hafter := ih (hitems.tracks htracks)
    unfold Nesting.run at hafter ⊢
    rw [List.flatten_cons, List.foldl_append]
    exact hafter

/-- Outside of calls every line that lexes is run to its end. -/
theorem whole (h : Feeds ctx texts performed m after) (hdepth : m.callDepth = 0) :
    performed = texts.map outlines := by
  induction h with
  | nil m => rfl
  | unlexed htext hrest ih => rw [List.map_cons, outlines_unlexed htext, ih hdepth]
  | line htext hitems hrest ih =>
    rw [List.map_cons, outlines_line htext _, hitems.whole hdepth,
      ih (hitems.depths.1.trans hdepth)]

/-- Where calls restore the surroundings of the script, all lines can be fed. -/
theorem of_restores (h : ctx.Restores) (texts : List String) (m : Machine) :
    ∃ performed after, Feeds ctx texts performed m after := by
  induction texts generalizing m with
  | nil => exact ⟨[], m, .nil m⟩
  | cons text rest ih =>
    cases htext : Lexed.ofLine text with
    | error e =>
      obtain ⟨others, after, hrest⟩ := ih (m.report (.parse e))
      exact ⟨_, after, .unlexed htext hrest⟩
    | ok lexed =>
      obtain ⟨own, between, hitems⟩ :=
        Run.Fed.of_restores h (Item.ofTokens m.line lexed.tokens []).1 m
      obtain ⟨others, after, hrest⟩ := ih between
      exact ⟨_, after, .line htext hitems hrest⟩

end Feeds

/-- Fed lines nest as their outlines say, whatever is open in the script that they interrupt: `count`
of its scopes are closed, the innermost ones, and those in `above` are left open on top of the rest.
Lines whose nesting leaves the kinds below alone close no scope of the script. If they leave no scope
open either, the script goes on as it would have without them, and so it does after all lines that
close what they open, unless its innermost scope is the body of an `if` or `else` without braces. -/
theorem fed_lines_nest (hfeeds : Feeds ctx texts performed m after)
    (hsettled : m.env.scopes.current.isWaiting = false) :
    let kinds := m.env.scopes.inner.map Scope.kind
    let nesting := Nesting.run ⟨[], kinds⟩ performed.flatten
    feedLines (reentry ctx) texts m = after ∧
    List.Forall₂ Run.Performs (texts.map outlines) performed ∧
    (m.callDepth = 0 → performed = texts.map outlines) ∧
    (∃ above inner count, nesting.Describes m.env.scopes after.env.scopes above inner count ∧
      count + nesting.below.length = m.env.scopes.inner.length) ∧
    (nesting.below = kinds → m.env.scopes.Below after.env.scopes) ∧
    (nesting = ⟨[], kinds⟩ → m.Restores after ∧ Run.Resumes m after) ∧
    (m.env.scopes.current.singleLine = false → Nesting.Balanced performed.flatten →
      nesting = ⟨[], kinds⟩) := by
  intro kinds nesting
  obtain ⟨above, inner, count, hdescribes⟩ :=
    hfeeds.tracks ⟨[], _, 0, .refl m.env.scopes hsettled⟩
  have hcount : count + nesting.below.length = m.env.scopes.inner.length := hdescribes.count_below
  -- as many scopes are closed as kinds are missing below
  have hkept (hbelow : nesting.below = kinds) :
      m.env.scopes.Within ⟨inner, after.env.scopes.global⟩ := by
    rw [hbelow, List.length_map] at hcount
    obtain rfl : count = 0 := by omega
    exact hdescribes.within
  refine ⟨hfeeds.feedLines, hfeeds.performs, hfeeds.whole,
    ⟨above, inner, count, hdescribes, hcount⟩, ?_, ?_, ?_⟩
  · intro hbelow
    exact ⟨above, inner, hdescribes.scopes, hkept hbelow⟩
  · intro hsame
    have hown : above.map Scope.kind = [] := hdescribes.own.trans (congrArg Nesting.own hsame)
    obtain rfl : above = [] := List.map_eq_nil_iff.mp hown
    have hscopes : after.env.scopes = ⟨inner, after.env.scopes.global⟩ := by
      rw [← show after.env.scopes.inner = inner from hdescribes.scopes]
    have hrestores : m.Restores after :=
      ⟨hfeeds.depths.1, hfeeds.depths.2, hscopes ▸ hkept (congrArg Nesting.below hsame)⟩
    exact ⟨hrestores, Run.resumes hrestores⟩
  · intro hblock hbalanced
    exact hbalanced.run (ScopeStack.closeBodies_kinds hblock)

/-- An interpreter with a native function, in a block of the script. -/
def calling : Machine :=
  let m : Machine := .initial .standard (.shelf ⟨[]⟩)
  match registerNative m "feed" 0 "feed" with
  | .ok m => m.mapScopes (·.push .block)
  | .error _ => m

/-- An `if` with its body on the next line, fed in a block, leaves the block as it was. -/
theorem fed_if_nests :
    let after := feedLines (reentry (context .none 0 [])) ["if (true)", "0"] calling
    calling.Restores after ∧ Run.Resumes calling after := by
  intro after
  have hcontext := context_restores Host.none_steady 0 []
  obtain ⟨performed, fed, hfeeds⟩ := Feeds.of_restores hcontext ["if (true)", "0"] calling
  have hsettled : calling.env.scopes.current.isWaiting = false := by decide
  obtain ⟨hfed, -, hwhole, -, -, hresumes, hbalanced⟩ := fed_lines_nest hfeeds hsettled
  have hperformed := hwhole (by decide)
  have hblock : calling.env.scopes.current.singleLine = false := by decide
  have hcloses : Nesting.Balanced performed.flatten := by
    rw [hperformed]
    cbv
  obtain rfl : after = fed := hfed
  exact hresumes (hbalanced hblock hcloses)

/-- An embedding program that feeds `0` whatever is called. -/
def feedsZero : Host := fun _ reentry _ m => (.ok .nothing, (reentry.evalLine "0" m).2)

/-- Fed in the body of an `if` that has no braces, `0` closes that body, and a following `else` has no
`if`. -/
theorem zero_forgets_if :
    let inBody := calling.mapScopes fun scopes => (scopes.push (.conditional .ifBody)).begun
    let lines := Text.SourceLine.split "if (true) feed()"
    let run (host : Host) :=
      (Run.runScript 1 false .nothing (.ofLines lines) (context host 1 []) calling).2
    inBody.env.scopes.inner.length = 2 ∧
      (feedLines (reentry (context .none 0 [])) ["0"] inBody).env.scopes.inner.length = 1 ∧
      (run .none).lastIf = some true ∧ (run feedsZero).lastIf = none := by
  refine ⟨?_, ?_, ?_, ?_⟩ <;> cbv

end Session

end BuildScript
