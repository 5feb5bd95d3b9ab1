import BuildScript.Proofs.Run.Bindings
import BuildScript.Proofs.Run.Recovery
import BuildScript.Proofs.Storage.Reached

/-!
What an included file declares. Its lines run in the scope that `include` is called in: names that it
declares outside of its own blocks are bound there, and stay bound as long as that scope is open. In
the global scope that is for ever, in a block or a body until it ends.
-/

namespace BuildScript

open Eval (Keeps)
open Machine (KeepsBound)
open Text (SourceLine)

/-- An item of a script, and what comes before it. -/
inductive Script.Turn (item : Item) : Script → Script → Prop
  | here (number : Nat) (before after : List Item) (rest : Script) :
    Turn item [⟨number, .ok before⟩] (⟨number, .ok (before ++ item :: after)⟩ :: rest)
  | later {front script : Script} (line : ScriptLine) (h : Turn item front script) :
    Turn item (line :: front) (line :: script)

/-- The name an item declares in the scope it runs in: a variable, a function or a procedure. -/
def Item.declared? : Item → Option String
  | .expression (.declare _ name) | .expression (.binary .assign (.declare _ name) _) => some name
  | .declaration (.function signature) (.ok _) => some signature.name
  | .declaration (.procedure name) (.ok _) => some name
  | _ => none

/-- A name is bound in the scope that has so many scopes below it. -/
def Machine.Binds (level : Nat) (name : String) (m : Machine) : Prop :=
  ∃ slot, m.env.scopes.slotOf ⟨level, name⟩ = some slot

open Machine (Binds)

theorem Machine.KeepsBound.binds {level : Nat} {name : String} {m m' : Machine}
    (h : m.KeepsBound level m') (hbinds : m.Binds level name) : m'.Binds level name := by
  obtain ⟨slot, hslot⟩ := hbinds
  exact ⟨slot, h ⟨level, name⟩ slot (Nat.le_refl level) hslot⟩

/-- A name that the global scope binds is found from everywhere, unless a nearer scope binds it. -/
theorem ScopeStack.lookup_global {stack : ScopeStack} {name : String} {slot : Slot}
    (h : stack.slotOf ⟨0, name⟩ = some slot) :
    stack.lookup name ≠ none ∧
      ((∀ level, level ≠ 0 → stack.slotOf ⟨level, name⟩ = none) →
        stack.lookup name = some slot) := by
  obtain ⟨inner, global⟩ := stack
  have hglobal : lookupName name global = some slot := h
  unfold lookup
  dsimp only
  induction inner with
  | nil => exact ⟨by rw [lookupFrom, hglobal]; exact Option.some_ne_none slot, fun _ => hglobal⟩
  | cons scope rest ih =>
    obtain ⟨hfound, hnearest⟩ := ih h
    unfold lookupFrom
    constructor
    · split
      · exact Option.some_ne_none _
      · split
        · rw [hglobal]
          exact Option.some_ne_none slot
        · exact hfound
    · intro hnone
      have hscope : lookupName name scope.bindings = none := by
        have hinnermost := hnone (rest.length + 1) (Nat.succ_ne_zero _)
        unfold slotOf at hinnermost
        rwa [bindingsAt_cons, if_pos rfl] at hinnermost
      rw [hscope]
      dsimp only
      split
      · exact hglobal
      · refine hnearest fun level hlevel => ?_
        have hbelow := hnone level hlevel
        unfold slotOf at hbelow ⊢
        rw [bindingsAt_cons] at hbelow
        split at hbelow
        · rename_i hinnermost
          rw [bindingsAt_above ⟨rest, global⟩ (by dsimp only at hinnermost ⊢; omega)]
          rfl
        · exact hbelow

namespace Eval

variable {level : Nat} {name : String} {ctx : Context}

/-- A declaration binds its name in the innermost scope. -/
theorem define_binds (value : Value) :
    Leads ctx (fun m => m.env.scopes.inner.length = level) (define name value)
      fun _ m => m.Binds level name := by
  intro held m slot after hlevel hrun
  obtain ⟨env, hdefine, rfl⟩ := define_ok hrun
  obtain ⟨-, -, rfl⟩ := Environment.define_ok hdefine
  subst hlevel
  refine ⟨slot, ?_⟩
  dsimp only
  rw [ScopeStack.slotOf_addBinding, if_pos rfl]

theorem declare_binds (hctx : ctx.Restores) (type : DataType) (initial : Option Value) :
    Leads ctx (fun m => m.env.scopes.inner.length = level) (declare type name initial)
      fun _ m => m.Binds level name := by
  have hrest (value : Value) : Leads ctx (fun m => m.env.scopes.inner.length = level)
      (do return .reference (← define name value) : Eval Operand) fun _ m => m.Binds level name :=
    (define_binds value).bind fun _ => .pure fun _ hbinds => hbinds
  cases initial with
  | some value =>
    exact (Leads.ofExcept _ fun _ _ _ hlevel => hlevel).bind fun value => hrest value
  | none =>
    have hstart := (undisturbed_effects hctx).steps.startOf type name
    exact (Leads.of_keeps hstart fun _ _ h hlevel => h.scopes.length_inner.trans hlevel).bind hrest

end Eval

namespace Run

open Eval (Leads)

variable {level base : Nat} {name : String} {inFunction : Bool} {ctx : Context}
  {m reached after : Machine}

/-- What a statement goes on to do keeps what it has declared. -/
theorem expressionFlow_binds (hctx : ctx.Restores) (hkeeps : ctx.KeepsBound level) {expr : Expr}
    (hname : Item.declared? (.expression expr) = some name) :
    Leads ctx (fun m => m.env.scopes.inner.length = level) (expressionFlow expr)
      fun _ m => m.Binds level name := by
  have hexpr : Leads ctx (fun m => m.env.scopes.inner.length = level) (Eval.evalExpr expr)
      fun _ m => m.Binds level name := by
    unfold Item.declared? at hname
    split at hname
    · rename_i type declared heq
      cases heq
      cases hname
      rw [Eval.evalExpr]
      exact Eval.declare_binds hctx type none
    · rename_i type declared value heq
      cases heq
      cases hname
      have hvalue := (Eval.undisturbed_effects hctx).steps.valueBy
        ((Eval.undisturbed_effects hctx).steps.evalExpr value)
      have hdeclare : Leads ctx (fun m => m.env.scopes.inner.length = level)
          (Eval.declareWith type name (Eval.evalExpr value)) fun _ m => m.Binds level name :=
        (Leads.of_keeps hvalue fun _ _ h hlevel => h.scopes.length_inner.trans hlevel).bind
          fun value => Eval.declare_binds hctx type (some value)
      have hmeaning : Eval.evalExpr (.binary .assign (.declare type name) value) =
          Eval.declareWith type name (Eval.evalExpr value) := by
        rw [Eval.evalExpr]
        rfl
      rw [hmeaning]
      exact hdeclare
    · rename_i heq
      cases heq
    · rename_i heq
      cases heq
    · cases hname
  refine hexpr.bind fun operand => ?_
  have hsteps := (Eval.keepsBound_effects hkeeps).steps
  have hbound (m m' : Machine) (h : m.KeepsBound level m') : m.Binds level name → m'.Binds level name :=
    h.binds
  refine Leads.of_keeps (KeepsBound.chains.bind KeepsBound.chains.machine fun m => ?_) hbound
  split
  · exact hsteps.pure _
  · exact hsteps.bind (hsteps.require _) fun _ => hsteps.bind (hsteps.valueOf _) fun _ =>
      hsteps.pure _

theorem declareHeader_binds {header : Header} {body : List SourceLine}
    (hname : Item.declared? (.declaration header (.ok body)) = some name) :
    Leads ctx (fun m => m.env.scopes.inner.length = level) (declareHeader header body)
      fun _ m => m.Binds level name := by
  have hgive (count : Nat) : Leads ctx (fun m => m.Binds level name) (Eval.giveIds count)
      fun _ m => m.Binds level name := by
    rintro held m _ _ hbinds ⟨⟩
    exact hbinds
  refine .read fun m hlevel => ?_
  have hdefine (value : Value) : Leads ctx (· = m) (Eval.define name value)
      fun _ m => m.Binds level name :=
    (Eval.define_binds value).strengthen fun _ hm => hm ▸ hlevel
  cases header with
  | function signature =>
    cases hname
    exact (hdefine _).bind fun _ => hgive 1
  | procedure name =>
    cases hname
    exact (hdefine _).bind fun _ => hgive 1
  | classNamed name => cases hname

/-- A declaration that succeeds binds its name in the scope that its item runs in. -/
theorem runItem_binds (hctx : ctx.Restores) (hkeeps : ctx.KeepsBound level)
    {item : Item} (hname : item.declared? = some name) {action : Eval Flow}
    (haction : item.action? inFunction = some action)
    (hlive : m.env.scopes.current.skipping = false) (hlevel : m.env.scopes.inner.length = level)
    {flow : Flow} (hacts : action ctx (m.mapScopes (·.begun)) = (.ok flow, after)) :
    (runItem (level + 1) inFunction item ctx m).2.Binds level name := by
  have hitem : item ≠ .blockOpen := by
    rintro rfl
    cases hname
  have hbegun : (m.mapScopes (·.begun)).env.scopes.inner.length = level :=
    (ScopeStack.length_begun m.env.scopes).trans hlevel
  have hguarded : guarded action ctx (m.mapScopes (·.begun)) = (.ok flow, after) := by
    unfold guarded
    rw [Eval.andThen_apply, Eval.attempt_apply, hacts]
    rfl
  have hfinish (hbinds : after.Binds level name) :
      (finishStatement (level + 1) flow ctx after).2.Binds level name :=
    (((keepsBound_effects hkeeps (Nat.lt_succ_self level)).lines.finishStatement flow).apply
      after).binds hbinds
  unfold runItem
  rw [Eval.andThen_apply_ok (Program.beginItem_running hitem hlive)]
  cases item with
  | expression expr =>
    cases haction
    dsimp only
    rw [if_neg Bool.false_ne_true, Eval.andThen_apply_ok hguarded]
    exact hfinish (expressionFlow_binds hctx hkeeps hname ctx.held _ flow after hbegun hacts)
  | declaration header body =>
    cases body with
    | error e => cases header <;> cases hname
    | ok body =>
      cases haction
      unfold runDeclaration
      dsimp only
      rw [if_neg Bool.false_ne_true, Eval.andThen_apply_ok hguarded]
      obtain ⟨⟨⟩, between, hdeclare, hrest⟩ := Eval.andThen_ok hacts
      cases hrest
      exact hfinish (declareHeader_binds hname ctx.held _ () after hbegun hdeclare)
  | _ => cases hname

variable {R : Machine → Machine → Prop}

/-- What an item leaves is related to what its line leaves. -/
theorem runItems_after (h : Effects R base ctx) (flow : Flow) (item : Item) (rest : List Item)
    (m : Machine) :
    R (runItem base inFunction item ctx m).2
      (runItems base inFunction flow (item :: rest) ctx m).2 := by
  rw [Program.runItems_cons]
  exact goOn_after h.refl fun flow after => (h.lines.runItems inFunction flow rest).apply after

/-- An item of a line is run where those before it have left the machine, and what it leaves is
related to what the line leaves. -/
theorem runLine_turn (h : Effects R base ctx) {before : List Item} {flow : Flow}
    (hreached : runLine base inFunction before ctx m = (.ok flow, reached))
    (hflow : flow.returned? = none) (item : Item) (after : List Item) :
    R (runItem base inFunction item ctx reached).2
      (runLine base inFunction (before ++ item :: after) ctx m).2 := by
  have hline := @Program.runLine_returned base inFunction ctx before m
  have hwhole := @Program.runLine_returned base inFunction ctx (before ++ item :: after) m
  rw [hreached] at hline
  rw [runItems_append rfl] at hwhole
  cases hitems : runItems base inFunction .nothing before ctx m with
  | mk result left =>
    rw [hitems] at hline hwhole
    obtain ⟨hresult, rfl⟩ := Prod.mk.inj hline
    cases result with
    | error fault => cases hresult
    | ok flow' =>
      have hflow' : flow'.returned? = none := (Except.ok.inj hresult).symm.trans hflow
      rw [goOn_none hflow'] at hwhole
      have hleft := congrArg Prod.snd hwhole
      dsimp only at hleft
      rw [hleft]
      exact runItems_after h flow' item after reached

/-- What a line leaves is related to what its script leaves. -/
theorem runScript_after (h : Effects R base ctx) (flow : Flow) (number : Nat) (items : List Item)
    (rest : Script) (m : Machine) :
    R (runLine base inFunction items ctx { m with line := number }).2
      (runScript base inFunction flow (⟨number, .ok items⟩ :: rest) ctx m).2 := by
  rw [Program.runScript_cons]
  exact goOn_after h.refl fun flow after => (h.lines.runScript inFunction flow rest).apply after

/-- An item whose turn comes is run, and what it leaves is related to what the script leaves. -/
theorem runScript_turn (h : Effects R base ctx) {item : Item} {front script : Script}
    (hturn : Script.Turn item front script) {flow flow' : Flow}
    (hreached : runScript base inFunction flow front ctx m = (.ok flow', reached))
    (hflow' : flow'.returned? = none) :
    R (runItem base inFunction item ctx reached).2
      (runScript base inFunction flow script ctx m).2 := by
  induction hturn generalizing flow m with
  | here number before after rest =>
    rw [Program.runScript_cons] at hreached
    obtain ⟨own, left, hrun, hreturned, hrest⟩ := goOn_ok hreached hflow'
    cases hrest
    exact h.trans (runLine_turn h hrun hreturned item after) (runScript_after h _ number _ rest m)
  | later line hturn ih =>
    rw [runScript_step] at hreached ⊢
    obtain ⟨own, left, hrun, hreturned, hrest⟩ := goOn_ok hreached hflow'
    rw [hrun, goOn_none hreturned]
    exact ih hrest

end Run

/-- The machine at the first line of an included file. -/
def Eval.including (path : String) (m : Machine) : Machine :=
  opened (m.scriptPath path) { m with includeDepth := m.includeDepth + 1 }

/-- What comes after a machine while the scope with so many scopes below it stays open: evaluations,
items above that scope, whole bodies and files, the calls that are entered, and what these close. -/
inductive Machine.Follows (host : Host) (level : Nat) (m : Machine) : Machine → Prop
  | now : Follows host level m m
  /-- Anything that leaves the scopes alone. -/
  | aside {a b : Machine} (h : Follows host level m a) (hscopes : b.env.scopes = a.env.scopes) :
    Follows host level m b
  /-- Scopes above are closed, as at the end of a statement, of a block or of a call. -/
  | closes {a b : Machine} (h : Follows host level m a) {count : Nat}
    (hopen : level + count ≤ a.env.scopes.inner.length)
    (hscopes : b.env.scopes = a.env.scopes.without count) : Follows host level m b
  | evaluated {a : Machine} (h : Follows host level m a) (expr : Expr) (budget : Nat)
    (held : List Anchor) :
    Follows host level m (Eval.evalExpr expr (Session.context host budget held) a).2
  | item {a : Machine} (h : Follows host level m a) {base : Nat} (hbase : level < base)
    (inFunction : Bool) (item : Item) (budget : Nat) (held : List Anchor) :
    Follows host level m
      (Run.runItem base inFunction item (Session.context host budget held) a).2
  | lines {a : Machine} (h : Follows host level m a) (lines : List SourceLine) (inFunction : Bool)
    (budget : Nat) (held : List Anchor) :
    Follows host level m (Run.runLines lines inFunction (Session.context host budget held) a).2
  /-- A call has bound its receiver and its parameters; its body comes next. -/
  | called {a : Machine} (h : Follows host level m a) (file : String) (receiver : Option ObjectId)
    (bound : List (String × Eval.Bound)) (ctx : Context) :
    Follows host level m (Eval.bindCall receiver bound ctx (Eval.entered file a)).2

namespace Machine.Follows

variable {host : Host} {level : Nat} {m later : Machine}

/-- Names stay bound in all that comes after, also inside of calls. -/
theorem keepsBound (hhost : host.KeepsBound level) (h : m.Follows host level later) :
    m.KeepsBound level later := by
  have hcontext := Session.context_keepsBound hhost
  induction h with
  | now => exact KeepsBound.chains.refl m
  | aside h hscopes ih => exact KeepsBound.chains.trans ih (.of_scopes hscopes)
  | @closes a b h count hopen hscopes ih =>
    have hclosed : a.env.scopes.KeepsBound level b.env.scopes := by
      rw [hscopes]
      exact .without (by omega)
    exact ih.trans hclosed
  | @evaluated a h expr budget held ih =>
    exact ih.trans (((Eval.keepsBound_effects (hcontext budget held)).steps.evalExpr expr).apply a)
  | @item a h base hbase inFunction item budget held ih =>
    have hitem := (Run.keepsBound_effects (hcontext budget held) hbase).lines.runItem inFunction item
    exact ih.trans (hitem.apply a)
  | @lines a h lines inFunction budget held ih =>
    exact ih.trans (Run.runLines_keepsBound (hcontext budget held) lines inFunction a)
  | @called a h file receiver bound ctx ih =>
    have hparameters : Keeps (KeepsBound level) ctx (Eval.bindParameters bound) :=
      KeepsBound.chains.composes.bindParameters Eval.bind_keepsBound Eval.define_keepsBound bound
    have hcall : Keeps (KeepsBound level) ctx (Eval.bindCall receiver bound) := by
      cases receiver with
      | none => exact hparameters
      | some id =>
        exact KeepsBound.chains.bind (Eval.defineReceiver_keepsBound id) fun _ => hparameters
    have hentered : a.KeepsBound level (Eval.entered file a) := Eval.entered_keepsBound file a
    exact ih.trans (hentered.trans (hcall.apply (Eval.entered file a)))

end Machine.Follows

namespace Session

variable {host : Host} {level : Nat} {m : Machine} {path text : String}

/-- What is bound once the lines of an included file have come so far is bound when `include`
returns. -/
theorem includeFile_turn (hhost : host.KeepsBound m.env.scopes.inner.length)
    (hdepth : m.includeDepth < m.options.maxIncludeDepth)
    (hread : m.files.readText (m.scriptPath path) = .ok text) {budget : Nat} {held : List Anchor}
    {item : Item} {front : Script}
    (hturn : Script.Turn item front (.ofLines (SourceLine.split text))) {flow : Flow}
    {reached : Machine}
    (hreached : Run.runScript m.env.scopes.depth false .nothing front (context host budget held)
      (Eval.including path m) = (.ok flow, reached)) (hflow : flow.returned? = none) :
    (Run.runItem m.env.scopes.depth false item (context host budget held) reached).2.KeepsBound
      m.env.scopes.inner.length
      (Eval.includeFile path (context host (budget + 1) held) m).2 := by
  let ctx := context host budget held
  have heffects := Run.keepsBound_effects (context_keepsBound hhost budget held)
    (Nat.lt_succ_self m.env.scopes.inner.length)
  have hscript := Run.runScript_turn heffects hturn hreached hflow
  have hended := @Run.ended_truncate_keepsBound _ (Eval.including path m) (Nat.le_refl _)
    (Run.runScript m.env.scopes.depth false .nothing (.ofLines (SourceLine.split text)) ctx
      (Eval.including path m))
  have hlines : KeepsBound m.env.scopes.inner.length
      (Run.runItem m.env.scopes.depth false item ctx reached).2
      (Run.runLines (SourceLine.split text) false ctx (Eval.including path m)).2 := by
    rw [Run.runLines_apply]
    exact hscript.trans hended
  rw [Eval.includeFile_apply, if_neg (Nat.not_le.mpr hdepth), hread]
  -- A fault that ends the file is reported, which leaves the scopes alone.
  exact KeepsBound.chains.trans hlines (.of_scopes (by
    dsimp only
    unfold Eval.closed
    split <;> rfl))

/-- An included file declares its names where `include` is called, so they are global only if that is
the global scope. Whatever its lines bind there, and whatever a declaration of it that succeeds binds
outside of its own blocks, is bound after the include in everything that follows while the scope is
open, and a global name is found from all of it. Once another scope than the global one is closed,
nothing that the file declared is left. -/
theorem included_names_bound (hhost : host.KeepsBound m.env.scopes.inner.length)
    (hdepth : m.includeDepth < m.options.maxIncludeDepth)
    (hread : m.files.readText (m.scriptPath path) = .ok text) (budget : Nat) (held : List Anchor) :
    let level := m.env.scopes.inner.length
    let ctx := context host budget held
    let included := Eval.includeFile path (context host (budget + 1) held) m
    (∃ ok, included.1 = .ok ok) ∧
    (∀ item front flow reached, Script.Turn item front (.ofLines (SourceLine.split text)) →
      Run.runScript (level + 1) false .nothing front ctx (Eval.including path m) =
        (.ok flow, reached) → flow.returned? = none →
        let left := (Run.runItem (level + 1) false item ctx reached).2
        (host.Steady → reached.env.scopes.inner.length = level →
          reached.env.scopes.current.skipping = false →
          ∀ name action result done, item.declared? = some name →
            item.action? false = some action →
            action ctx (reached.mapScopes (·.begun)) = (.ok result, done) →
              left.Binds level name) ∧
        ∀ name slot, left.env.scopes.slotOf ⟨level, name⟩ = some slot →
          ∀ later, included.2.Follows host level later →
            later.env.scopes.slotOf ⟨level, name⟩ = some slot ∧
              (level = 0 → later.env.scopes.lookup name ≠ none ∧
                ((∀ other, other ≠ 0 → later.env.scopes.slotOf ⟨other, name⟩ = none) →
                  later.env.scopes.lookup name = some slot))) ∧
    (host.Steady → level ≠ 0 → included.2.env.scopes.pop.2 = m.env.scopes.pop.2) := by
  intro level ctx included
  refine ⟨?_, ?_, ?_⟩
  · show ∃ ok, (Eval.includeFile path (context host (budget + 1) held) m).1 = .ok ok
    rw [Eval.includeFile_apply, if_neg (Nat.not_le.mpr hdepth), hread]
    exact ⟨_, rfl⟩
  · intro item front flow reached hturn hreached hflow left
    constructor
    · intro hsteady hlevel hlive name action result done hname haction hacts
      exact Run.runItem_binds (context_restores hsteady budget held)
        (context_keepsBound hhost budget held) hname haction hlive hlevel hacts
    · intro name slot hslot later hfollows
      have hincluded := includeFile_turn hhost hdepth hread hturn hreached hflow
      have hlater := hincluded.trans (hfollows.keepsBound hhost) ⟨level, name⟩ slot
        (Nat.le_refl level) hslot
      refine ⟨hlater, fun hglobal => ?_⟩
      rw [hglobal] at hlater
      exact ScopeStack.lookup_global hlater
  · intro hsteady hlevel
    have hundisturbed := (Eval.includeFile_undisturbed
      (context_restores hsteady (budget + 1) held) path).apply m
    have hwithin : m.env.scopes.Within included.2.env.scopes := hundisturbed.scopes
    cases hstack : m.env.scopes with
    | mk inner global =>
      rw [hstack] at hwithin
      cases inner with
      | nil => exact absurd (congrArg (fun stack => stack.inner.length) hstack) hlevel
      | cons scope rest =>
        cases hafter : included.2.env.scopes with
        | mk inner' global' =>
          rw [hafter] at hwithin
          cases hwithin
          rfl

/-- An interpreter with one file, which declares a variable. -/
def sharing : Machine := .initial .standard (.shelf ⟨[("lib.eve", ⟨"int x = 7", 0⟩)]⟩)

/-- The declaration that the file consists of. -/
def sharedName : Item := .expression (.binary .assign (.declare .int "x") (.literal (.int 7)))

theorem sharing_script : Script.ofLines (SourceLine.split "int x = 7") = [⟨1, .ok [sharedName]⟩] := by
  cbv

theorem sharing_readText : sharing.files.readText (sharing.scriptPath "lib.eve") = .ok "int x = 7" := by
  cbv

/-- Included by a line of its own, the file declares a global name. -/
theorem sharedName_bound :
    let included := Eval.includeFile "lib.eve" (context .none 1 []) sharing
    ∀ later, included.2.Follows .none 0 later → later.env.scopes.lookup "x" ≠ none := by
  intro included later hfollows
  obtain ⟨-, hturns, -⟩ := @included_names_bound .none sharing _ _ (Host.none_keepsBound 0)
    (by decide) sharing_readText 0 []
  have hturn : Script.Turn sharedName [⟨1, .ok []⟩]
      (.ofLines (SourceLine.split "int x = 7")) := by
    rw [sharing_script]
    exact .here 1 [] [] []
  obtain ⟨hdeclares, hbound⟩ := hturns sharedName _ .nothing _ hturn rfl rfl
  obtain ⟨slot, hslot⟩ := hdeclares Host.none_steady rfl rfl "x" _ (.value (.int 7)) _ rfl rfl rfl
  exact ((hbound "x" slot hslot later hfollows).2 rfl).1

/-- Included in the body of an `if`, the same file declares a name of that body, which is gone with
it. -/
theorem sharedName_lost :
    let lines := SourceLine.split "if (true) include(\"lib.eve\")"
    let after := (Run.runLines lines false (context .none 2 []) (Eval.opened "test.eve" sharing)).2
    after.errorCount = 0 ∧ after.env.scopes.lookup "x" = none := by
  constructor <;> cbv

end Session

end BuildScript
