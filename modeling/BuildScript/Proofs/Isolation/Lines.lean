import BuildScript.Proofs.Isolation.Twins
import BuildScript.Proofs.Run.Surroundings

/-!
Lines in the body of a call. Scopes are counted from the global one, so the two runs of a body count
differently, but they open and close the same scopes above that of the call.
-/

namespace BuildScript

namespace Framed

variable {above : List Scope} {count : Nat}

theorem length_pos (h : Framed above) : 0 < above.length := by
  cases h <;> exact Nat.succ_pos _

/-- Above more scopes than that of the call, no statement ends below. -/
theorem closeSingles (h : Framed above) (hcount : 2 ≤ count) (below : List Scope)
    (outcome : Option Bool) (closed : Nat) :
    Run.closeSingles (count + below.length) outcome (above ++ below) closed =
      Run.closeSingles count outcome above closed := by
  induction h generalizing outcome closed with
  | @call scope h =>
    have hleft : ¬below.length + 2 > count + below.length := by omega
    have hright : ¬([] : List Scope).length + 2 > count := Nat.not_lt.mpr hcount
    simp only [List.cons_append, List.nil_append, Run.closeSingles, hleft, hright, decide_false,
      Bool.false_and, Bool.false_eq_true, if_false]
  | @above scope rest h ih =>
    have hiff : (rest ++ below).length + 2 > count + below.length ↔ rest.length + 2 > count := by
      rw [List.length_append]
      omega
    simp only [List.cons_append, Run.closeSingles, hiff, ih]

theorem openSingles (h : Framed above) (hcount : 2 ≤ count) (below : List Scope) :
    Run.openSingles (count + below.length) (above ++ below) = Run.openSingles count above := by
  have hsame := congrArg Prod.snd (h.closeSingles hcount below none 0)
  rwa [Run.closeSingles_closed, Run.closeSingles_closed, Nat.zero_add, Nat.zero_add] at hsame

theorem openSingles_lt (h : Framed above) (hcount : 2 ≤ count) :
    Run.openSingles count above < above.length := by
  have hle := ScopeStack.openSingles_le count above
  have hpositive := h.length_pos
  omega

end Framed

theorem Run.completeStatement_over (base : Nat) (outcome : Option Bool) (m : Machine)
    (inner : List Scope) (ctx : Context) :
    Run.completeStatement base outcome ctx (m.over inner) =
      let ending := Run.closeSingles base outcome inner 0
      (.ok (if ending.2 > 0 then some (Run.ifFlow ending.1) else none),
        { m with lastIf := ending.1 }.over (inner.drop ending.2)) := rfl

namespace Run

variable {body : List Text.SourceLine} {ctx : Context}

theorem runLines_nothing (h : Script.ofLines body = []) (inFunction : Bool) (m : Machine) :
    Run.runLines body inFunction ctx m = (.ok .nothing, m) := by
  have hbase : (m.env.scopes.depth == 0) = false := rfl
  rw [runLines_apply, h]
  simp only [Run.runScript, Eval.pure_apply, ended, ScopeStack.hasOpenBlock, Nat.sub_self,
    List.take_zero, List.any_nil, Bool.or_false, hbase, Bool.false_eq_true, if_false]
  have hkept : m.env.scopes.truncate m.env.scopes.depth = m.env.scopes := by
    have hnone : m.env.scopes.depth - max m.env.scopes.depth 1 = 0 := by omega
    unfold ScopeStack.truncate
    rw [hnone, List.drop_zero]
  unfold Machine.mapScopes
  dsimp only
  rw [hkept]

/-- The first line of a script is that of the machine, whatever line it stood on. -/
theorem runLines_onLine (h : Script.ofLines body ≠ []) (inFunction : Bool) (m : Machine)
    (line : Nat) : Run.runLines body inFunction ctx (m.onLine line) =
      Run.runLines body inFunction ctx m := by
  rw [runLines_apply, runLines_apply]
  cases hscript : Script.ofLines body with
  | nil => exact absurd hscript h
  | cons first rest => rfl

end Run

theorem Run.closeBlock_eq (base : Nat) :
    Run.closeBlock base = do
      Run.updateScopes fun stack =>
        { stack with inner := stack.inner.drop (Run.openSingles base stack.inner) }
      let m ← Eval.machine
      let outcome := (m.env.scopes.pop.1.map (Run.blockOutcome ·.state)).getD none
      if m.env.scopes.depth ≤ base then do
        Eval.recover (.eval .unmatchedBrace)
        return .error
      else do
        Run.updateScopes fun _ => m.env.scopes.pop.2
        return (← Run.completeStatement base outcome).getD (Run.ifFlow outcome) := rfl

namespace Eval

variable {lines : Nat → Nat → Prop} {below below' : List Scope} {ctx : Context} {count : Nat}

open Run

namespace Isolates

theorem currentSkipping : Isolated (Twins lines below below') below below' ctx
    (do return (← scopes).current.skipping : Eval Bool) := by
  rintro held held' - - - ⟨m, hframed, hline⟩
  obtain ⟨scope, rest, rfl, -⟩ := hframed.innermost
  exact ⟨rfl, .mk m hframed hline⟩

theorem conditional (state : BlockState) : Isolated (Twins lines below below') below below' ctx
    (updateScopes (·.push (.conditional state))) := by
  refine Parallel.scopes fun {above} global hframed => ?_
  obtain ⟨scope, rest, rfl, -⟩ := hframed.innermost
  exact ⟨_ :: scope :: rest, .above _ hframed, rfl, rfl⟩

theorem beginItem (item : Item) :
    Isolated (Twins lines below below') below below' ctx (beginItem item) := by
  have hbegun : Isolated (Twins lines below below') below below' ctx
      (updateScopes (·.mapCurrent fun scope => { scope with awaitingBody := false })) := by
    refine Parallel.scopes fun {above} global hframed => ?_
    obtain ⟨scope, rest, rfl, hrest⟩ := hframed.innermost
    exact ⟨_ :: rest, hrest { scope with awaitingBody := false } rfl, rfl, rfl⟩
  cases item with
  | blockOpen => exact currentSkipping
  | _ => exact Isolated.twins.bind hbegun fun _ => currentSkipping

theorem openBlock : Isolated (Twins Eq below below') below below' ctx openBlock := by
  refine Isolated.twins.bind (Isolated.update fun _ _ => rfl) fun _ => ?_
  refine Parallel.scopes fun {above} global hframed => ?_
  obtain ⟨scope, rest, rfl, hrest⟩ := hframed.innermost
  by_cases hwaiting : (scope.singleLine && scope.awaitingBody) = true
  · refine ⟨_ :: rest, hrest { scope with singleLine := false, awaitingBody := false } rfl, ?_, ?_⟩
    · exact if_pos hwaiting
    · exact if_pos hwaiting
  · refine ⟨{ Scope.block with skipping := Scope.block.skipping || scope.skipping } ::
      scope :: rest, .above _ hframed, ?_, ?_⟩
    · exact if_neg hwaiting
    · exact if_neg hwaiting

theorem registerTemplate (template : ClassTemplate) :
    Isolated (Twins Eq below below') below below' ctx (registerTemplate template) := by
  intro held held' hshares m m' hm
  obtain ⟨n, above, hframed, rfl, rfl⟩ := hm.exists_over
  cases hfind : n.classes.find? template.name with
  | some found =>
    have hknown (stack : List Scope) :
        (n.over stack).classes.find? template.name = some found := hfind
    rw [registerTemplate_known (hknown _), registerTemplate_known (hknown _)]
    exact ⟨rfl, .same n hframed⟩
  | none =>
    have hnew (stack : List Scope) : (n.over stack).classes.find? template.name = none := hfind
    rw [registerTemplate_new (hnew _), registerTemplate_new (hnew _)]
    exact ⟨rfl, .same { n with classes := n.classes ++ [template] } hframed⟩

theorem opens (h : Isolates below below' ctx) :
    Opens (Isolated (Twins Eq below below') below below' ctx) where
  toStatements := .of_steps h.steps
  glance hread := Isolated.glance fun m scopes => hread m scopes m.log
  setLastIf _ := Isolated.update fun _ _ => rfl
  conditional := conditional
  beginItem := beginItem
  openBlock := openBlock

theorem declares (h : Isolates below below' ctx) :
    Declares (Isolated (Twins Eq below below') below below' ctx) where
  toOpens := h.opens
  atLine _ := Isolated.update fun _ _ => rfl
  giveIds _ := Isolated.update fun _ _ => rfl
  define := Isolated.define
  registerTemplate := registerTemplate

/-- A statement ends the same scopes above both. -/
theorem completeStatement (hcount : 2 ≤ count) (outcome : Option Bool) :
    Parallel (Twins Eq below below') below below' ctx
      (completeStatement (count + below.length) outcome)
      (completeStatement (count + below'.length) outcome) := by
  intro held held' hshares m m' hm
  obtain ⟨n, above, hframed, rfl, rfl⟩ := hm.exists_over
  let ending := closeSingles count outcome above 0
  have hclosed : ending.2 < above.length := by
    have hlt := hframed.openSingles_lt hcount
    rwa [← Nat.zero_add (Run.openSingles count above), ← closeSingles_closed outcome] at hlt
  have hrun (lower : List Scope) (held : List Anchor) :
      Run.completeStatement (count + lower.length) outcome { ctx with held }
        (n.over (above ++ lower)) =
        (.ok (if ending.2 > 0 then some (ifFlow ending.1) else none),
          { n with lastIf := ending.1 }.over (above.drop ending.2 ++ lower)) := by
    rw [completeStatement_over, hframed.closeSingles hcount]
    dsimp only
    rw [List.drop_append_of_le_length (Nat.le_of_lt hclosed)]
  rw [hrun, hrun]
  exact ⟨rfl, .same { n with lastIf := ending.1 } (hframed.drop hclosed)⟩

theorem finishStatement (hcount : 2 ≤ count) (flow : Flow) :
    Parallel (Twins Eq below below') below below' ctx
      (finishStatement (count + below.length) flow)
      (finishStatement (count + below'.length) flow) :=
  (completeStatement hcount none).bind fun _ => Isolated.twins.pure _

theorem closeBlock (h : Isolates below below' ctx) (hcount : 2 ≤ count) :
    Parallel (Twins Eq below below') below below' ctx (closeBlock (count + below.length))
      (closeBlock (count + below'.length)) := by
  rw [closeBlock_eq, closeBlock_eq]
  refine Parallel.bind (Parallel.scopes fun {above} global hframed => ?_) fun _ => ?_
  · have hlt := hframed.openSingles_lt hcount
    refine ⟨_, hframed.drop hlt, ?_, ?_⟩
    · rw [hframed.openSingles hcount, List.drop_append_of_le_length (Nat.le_of_lt hlt)]
    · rw [hframed.openSingles hcount, List.drop_append_of_le_length (Nat.le_of_lt hlt)]
  · refine Parallel.look fun held held' hshares m m' hm => ?_
    obtain ⟨n, above, hframed, rfl, rfl⟩ := hm.exists_over
    have hdepth (lower : List Scope) : (n.over (above ++ lower)).env.scopes.depth ≤
        count + lower.length ↔ above.length + 1 ≤ count := by
      show (above ++ lower).length + 1 ≤ count + lower.length ↔ _
      rw [List.length_append]
      omega
    by_cases hopen : above.length + 1 ≤ count
    · rw [if_pos ((hdepth below).mpr hopen), if_pos ((hdepth below').mpr hopen)]
      have hunmatched := h.opens.bind (h.opens.recover (.eval .unmatchedBrace)) fun _ =>
        h.opens.pure Flow.error
      exact hunmatched hshares (.same n hframed)
    · rw [if_neg (mt (hdepth below).mp hopen), if_neg (mt (hdepth below').mp hopen)]
      cases hframed with
      | call hcall => exact absurd hcount hopen
      | above scope hrest =>
        have hcomplete := (completeStatement hcount (blockOutcome scope.state)).bind fun flow =>
          h.opens.pure (flow.getD (ifFlow (blockOutcome scope.state)))
        exact hcomplete hshares (.same n hrest)

theorem runReturn (h : Isolates below below' ctx) (hcount : 2 ≤ count) (inFunction skipping : Bool)
    (expr : Option (Except SyntaxError Expr)) :
    Parallel (Twins Eq below below') below below' ctx
      (runReturn (count + below.length) inFunction skipping expr)
      (runReturn (count + below'.length) inFunction skipping expr) := by
  unfold Run.runReturn
  cases skipping with
  | true => exact finishStatement hcount _
  | false =>
    cases inFunction with
    | false => exact Parallel.bind (h.opens.recover _) fun _ => finishStatement hcount _
    | true => exact h.opens.bind (h.opens.returned expr) fun _ => h.opens.pure _

theorem runDeclaration (h : Isolates below below' ctx) (hcount : 2 ≤ count) (skipping : Bool)
    (header : Header) (body : Except SyntaxError (List Text.SourceLine)) :
    Parallel (Twins Eq below below') below below' ctx
      (runDeclaration (count + below.length) skipping header body)
      (runDeclaration (count + below'.length) skipping header body) := by
  cases body with
  | error e =>
    exact Parallel.bind (h.opens.reject skipping e) fun _ => finishStatement hcount _
  | ok body =>
    cases skipping with
    | true =>
      exact Parallel.bind (h.opens.pure Flow.nothing) fun flow => finishStatement hcount flow
    | false =>
      have hdeclared := h.opens.guarded
        (h.opens.bind (h.declares.declareHeader header body) fun _ => h.opens.pure Flow.nothing)
      exact Parallel.bind hdeclared fun flow => finishStatement hcount flow

/-- An item opens and closes the same scopes above both. -/
theorem runItem (h : Isolates below below' ctx) (hcount : 2 ≤ count) (inFunction : Bool)
    (item : Item) :
    Parallel (Twins Eq below below') below below' ctx
      (runItem (count + below.length) inFunction item)
      (runItem (count + below'.length) inFunction item) := by
  refine Parallel.bind (beginItem item) fun skipping => ?_
  cases item with
  | condition expr =>
    exact h.opens.bind (h.opens.enterIf skipping (h.opens.conditionHolds expr)) fun _ =>
      h.opens.pure _
  | elseMark => exact h.opens.enterElse skipping
  | blockOpen => exact h.opens.bind openBlock fun _ => h.opens.pure _
  | blockClose => exact h.closeBlock hcount
  | giveBack expr => exact h.runReturn hcount inFunction skipping expr
  | expression expr =>
    cases skipping with
    | true =>
      exact Parallel.bind (h.opens.pure Flow.nothing) fun flow => finishStatement hcount flow
    | false =>
      exact Parallel.bind (h.opens.guarded (h.opens.expressionFlow expr)) fun flow =>
        finishStatement hcount flow
  | declaration header body => exact h.runDeclaration hcount skipping header body
  | rejected error =>
    exact Parallel.bind (h.opens.reject skipping error) fun _ => finishStatement hcount _
  | malformed error => exact h.opens.bind (h.opens.reject skipping error) fun _ => h.opens.pure _

theorem runItems (h : Isolates below below' ctx) (hcount : 2 ≤ count) (inFunction : Bool)
    (flow : Flow) (items : List Item) :
    Parallel (Twins Eq below below') below below' ctx
      (runItems (count + below.length) inFunction flow items)
      (runItems (count + below'.length) inFunction flow items) := by
  induction items generalizing flow with
  | nil => exact h.opens.pure flow
  | cons item rest ih =>
    refine Parallel.bind (h.runItem hcount inFunction item) fun flow => ?_
    cases flow with
    | giveBack value => exact h.opens.pure _
    | _ => exact ih _

theorem runLine (h : Isolates below below' ctx) (hcount : 2 ≤ count) (inFunction : Bool)
    (items : List Item) :
    Parallel (Twins Eq below below') below below' ctx
      (runLine (count + below.length) inFunction items)
      (runLine (count + below'.length) inFunction items) := by
  refine Parallel.glance (fun _ _ => rfl) (fun _ _ => rfl) fun before => ?_
  refine Parallel.bind (h.runItems hcount inFunction .nothing items) fun flow => ?_
  have hended (flow : Flow) : Isolated (Twins Eq below below') below below' ctx
      (do return if (← machine).errorCount > before.errorCount then .error else flow : Eval Flow) :=
    Isolated.glance (fun _ _ => rfl) fun _ => h.opens.pure _
  cases flow with
  | giveBack value => exact h.opens.pure _
  | _ => exact hended _

theorem runScript (h : Isolates below below' ctx) (hcount : 2 ≤ count) (inFunction : Bool)
    (flow : Flow) (script : Script) :
    Parallel (Twins Eq below below') below below' ctx
      (runScript (count + below.length) inFunction flow script)
      (runScript (count + below'.length) inFunction flow script) := by
  induction script generalizing flow with
  | nil => exact h.opens.pure flow
  | cons line rest ih =>
    refine Parallel.bind (h.declares.atLine line.number) fun _ => ?_
    cases line.items with
    | error e => exact Parallel.bind (h.opens.report _) fun _ => ih _
    | ok items =>
      refine Parallel.bind (h.runLine hcount inFunction items) fun flow => ?_
      cases flow with
      | giveBack value => exact h.opens.pure _
      | _ => exact ih _

/-- What the lines left open above is the same, and it is dropped above both. -/
theorem ended {depth : Nat} (hdepth : 0 < depth)
    {x x' : Except Fault Flow × Machine} (hx : Agree (Twins Eq below below') x x') :
    Twins Eq below below'
      ((ended (depth + below.length + 1) x).mapScopes (·.truncate (depth + below.length + 1)))
      ((ended (depth + below'.length + 1) x').mapScopes
        (·.truncate (depth + below'.length + 1))) := by
  obtain ⟨result, after⟩ := x
  obtain ⟨result', after'⟩ := x'
  obtain ⟨rfl, hafter⟩ := hx
  obtain ⟨n, above, hframed, rfl, rfl⟩ := hafter.exists_over
  obtain ⟨kept, hkept, htruncate⟩ := hframed.truncate hdepth
  have hdropped (n : Machine) : Twins Eq below below'
      ((n.over (above ++ below)).mapScopes (·.truncate (depth + below.length + 1)))
      ((n.over (above ++ below')).mapScopes (·.truncate (depth + below'.length + 1))) := by
    rw [n.mapScopes_over (htruncate below _), n.mapScopes_over (htruncate below' _)]
    exact .same n hkept
  have hopen (lower : List Scope) :
      (n.over (above ++ lower)).env.scopes.hasOpenBlock (depth + lower.length + 1) =
        (above.take (above.length - depth)).any fun scope => !scope.singleLine := by
    have hcount :
        (above ++ lower).length + 1 - (depth + lower.length + 1) = above.length - depth := by
      rw [List.length_append]
      omega
    show (_ == 0 || ((above ++ lower).take ((above ++ lower).length + 1 - _)).any _) = _
    rw [hcount, List.take_append_of_le_length (Nat.sub_le _ _)]
    rfl
  rcases result with fault | flow
  · exact hdropped n
  · unfold Run.ended
    rw [hopen, hopen]
    cases flow with
    | giveBack value => exact hdropped n
    | _ =>
      dsimp only
      split
      · exact hdropped (n.report _)
      · exact hdropped n

/-- Lines that begin on the same line do the same on twins. -/
theorem runLines (h : Isolates below below' ctx) (body : List Text.SourceLine) (inFunction : Bool) :
    Isolated (Twins Eq below below') below below' ctx (runLines body inFunction) := by
  intro held held' hshares m m' hm
  obtain ⟨n, above, hframed, rfl, rfl⟩ := hm.exists_over
  have hdepth (lower : List Scope) :
      (n.over (above ++ lower)).env.scopes.depth = above.length + lower.length + 1 :=
    congrArg (· + 1) List.length_append
  have hbase (lower : List Scope) :
      above.length + lower.length + 1 = above.length + 1 + lower.length := by omega
  have hscript := h.runScript (Nat.succ_le_succ hframed.length_pos) inFunction .nothing
    (.ofLines body) hshares (Twins.same n hframed)
  rw [runLines_apply, runLines_apply]
  dsimp only
  rw [hdepth, hdepth]
  rw [← hbase, ← hbase] at hscript
  exact ⟨hscript.1, ended hframed.length_pos hscript⟩

/-- Wherever they begin, lines do the same on twins. -/
theorem runLines_twins (h : Isolates below below' ctx) (hlines : ∀ line, lines line line)
    (body : List Text.SourceLine) (inFunction : Bool) :
    Isolated (Twins lines below below') below below' ctx (Run.runLines body inFunction) := by
  rintro held held' hshares - - @⟨m, above, line, hframed, hline⟩
  by_cases hscript : Script.ofLines body = []
  · rw [runLines_nothing hscript, runLines_nothing hscript]
    exact ⟨rfl, .mk m hframed hline⟩
  · have honline : (m.onLine line).over (above ++ below') =
        (m.over (above ++ below')).onLine line := rfl
    rw [honline, runLines_onLine hscript]
    obtain ⟨hresult, hafter⟩ := h.runLines body inFunction hshares (Twins.same m hframed)
    obtain ⟨n, above, hframed', hn, hn'⟩ := hafter.exists_over
    refine ⟨hresult, ?_⟩
    rw [hn, hn']
    exact .mk n hframed' (hlines n.line)

end Isolates

end Eval

/-- An embedding program whose entry points do the same on two machines that differ below the scope
of a call, provided that the calls back into the script do. -/
def Host.Isolated (host : Host) : Prop :=
  ∀ (below below' : List Scope) entry (reentry reentry' : Reentry) args,
    (∀ function args (m m' : Machine), Twins Eq below below' m m' →
      Eval.Agree (Twins Eq below below') (reentry.callValue function args m)
        (reentry'.callValue function args m')) →
    ∀ m m' : Machine, Twins Eq below below' m m' →
      Eval.Agree (Twins Eq below below') (host entry reentry args m) (host entry reentry' args m')

theorem Host.none_isolated : Host.none.Isolated := fun _ _ _ _ _ _ _ _ _ hm => ⟨rfl, hm⟩

/-- However deep bodies, files and returns of the embedding program nest, what runs above the scope
of a call does the same whatever lies below. -/
theorem Session.context_isolates {host : Host} (hhost : host.Isolated) (below below' : List Scope)
    (budget : Nat) (held : List Anchor) :
    Eval.Isolates below below' (context host budget held) := by
  induction budget generalizing held with
  | zero =>
    refine ⟨fun _ body inFunction => ?_, fun entry args => ?_⟩
    · rintro - - - - - ⟨m, hframed, hline⟩
      exact ⟨rfl, .mk m hframed hline⟩
    · rintro - - - - - ⟨m, hframed, hline⟩
      exact ⟨rfl, .mk m hframed hline⟩
  | succ budget ih =>
    refine ⟨fun hlines body inFunction => ?_, fun entry args => ?_⟩
    · intro held held' hshares m m' hm
      have hrun := (ih held).runLines_twins hlines body inFunction hshares hm
      rwa [context_held, context_held] at hrun
    · intro held held' hshares m m' hm
      refine hhost below below' entry _ _ args (fun function args m m' hm => ?_) m m' hm
      have hcall := (ih held).steps.callValue function args hshares hm
      rwa [context_held, context_held] at hcall

end BuildScript
