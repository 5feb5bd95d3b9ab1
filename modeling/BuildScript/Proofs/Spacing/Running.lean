import Mathlib
import BuildScript.Proofs.Likeness.Frames
import BuildScript.Proofs.Spacing.Alike

/-!
Running bodies that are read alike, in machines that are the same but for such bodies: they do the same,
and what they say differs in the numbers of lines alone. Lines on which nothing stands change nothing
but the line that is in force.
-/

namespace BuildScript

open Text (SourceLine)
open Eval (Couples Same Paired)

/-- The same event but for the line that a message names. Messages are laid out with these options. -/
inductive Event.Alike (options : Options) : Event → Event → Prop
  | same (event) : Alike options event event
  | warning {m m' : Machine} (text) (hfile : m.file = m'.file) (h : m.options = options)
    (h' : m'.options = options) :
    Alike options (.warning (m.diagnostic text)) (.warning (m'.diagnostic text))
  | error {m m' : Machine} (text) (hfile : m.file = m'.file) (h : m.options = options)
    (h' : m'.options = options) :
    Alike options (.error (m.diagnostic text)) (.error (m'.diagnostic text))

/-- Two machines in a file that are the same but for bodies that are read alike, and that told the same
since `start`, but for the lines that messages name. -/
structure Likewise (start : Machine) (file : String) (s : Sight) (m m' : Machine) : Prop where
  sight : s = .reading
  same : m.Akin s m'
  here : m.file = file
  options : m.options = start.options
  told : ∃ told told', m.events = told ++ start.events ∧ m'.events = told' ++ start.events ∧
    List.Forall₂ (Event.Alike start.options) told told'

/-- Both flows end a body and give the same back but for bodies, or neither ends it. -/
abbrev Flow.EndsAkin (s : Sight) (flow flow' : Flow) : Prop :=
  flow.returned?.map (Option.map (Value.recast s.left)) =
    flow'.returned?.map (Option.map (Value.recast s.right))

/-- Bodies that are read alike, run in machines that are alike, do the same. -/
structure Context.RunsAlike (start : Machine) (ctx : Context) : Prop where
  runBody : ∀ {held lines lines' inFunction file m m'}, ReadsAlike lines lines' →
    Likewise start file .reading m m' →
      Paired (Flow.EndsAkin .reading) (ctx.runBody held lines inFunction m).1
          (ctx.runBody held lines' inFunction m').1 ∧
        Likewise start file .reading (ctx.runBody held lines inFunction m).2
          (ctx.runBody held lines' inFunction m').2
  callHost : ∀ {held entry args args' file m m'}, Operand.AllAkin .reading args args' →
    Likewise start file .reading m m' →
      Paired (Value.Akin .reading) (ctx.callHost held entry args m).1
          (ctx.callHost held entry args' m').1 ∧
        Likewise start file .reading (ctx.callHost held entry args m).2
          (ctx.callHost held entry args' m').2

variable {start m m' n n' : Machine} {file : String} {s : Sight} {ctx : Context}

theorem Flow.returned?_recast (ρ : Recast) (flow : Flow) :
    (flow.recast ρ).returned? = flow.returned?.map (Option.map (Value.recast ρ)) := by
  cases flow <;> rfl

theorem Flow.Akin.ends {flow flow' : Flow} (h : flow.Akin s flow') : Flow.EndsAkin s flow flow' := by
  rw [Flow.EndsAkin, ← Flow.returned?_recast, ← Flow.returned?_recast, h]

theorem Eval.givenBack_eq (flow : Flow) : givenBack flow = flow.returned?.join := by
  cases flow <;> rfl

theorem Flow.EndsAkin.gives {flow flow' : Flow} (h : Flow.EndsAkin s flow flow') :
    Eval.GivesAkin s flow flow' := by
  have hjoined := congrArg Option.join h
  rwa [Option.join_map_eq_map_join, Option.join_map_eq_map_join, ← Eval.givenBack_eq,
    ← Eval.givenBack_eq] at hjoined

namespace Likewise

theorem options' (h : Likewise start file s m m') : m'.options = start.options :=
  (h.same.observe Machine.options fun _ _ => rfl).symm.trans h.options

theorem file_eq (h : Likewise start file s m m') : m.file = m'.file :=
  h.same.observe Machine.file fun _ _ => rfl

/-- Machines that go on without a word. -/
theorem quiet (h : Likewise start file s m m') (hsame : n.Akin s n') (hmute : m.Mute n)
    (hmute' : m'.Mute n') : Likewise start file s n n' where
  sight := h.sight
  same := hsame
  here := hmute.file.trans h.here
  options := hmute.options.trans h.options
  told := by
    rw [hmute.events, hmute'.events]
    exact h.told

/-- The line in force does not count. -/
theorem atLine (h : Likewise start file s m m') (line line' : Nat) :
    Likewise start file s (m.atLine line) (m'.atLine line') :=
  ⟨h.sight, h.same, h.here, h.options, h.told⟩

/-- Both machines say something. -/
theorem emit (h : Likewise start file s m m') {event event' : Event}
    (hevent : event.Alike start.options event') :
    Likewise start file s (m.emit event) (m'.emit event') where
  sight := h.sight
  same := h.same
  here := h.here
  options := h.options
  told := by
    obtain ⟨told, told', hevents, hevents', htold⟩ := h.told
    exact ⟨event :: told, event' :: told', congrArg (event :: ·) hevents,
      congrArg (event' :: ·) hevents', .cons hevent htold⟩

theorem warn (h : Likewise start file s m m') (text : String) :
    Likewise start file s (m.warn text) (m'.warn text) :=
  h.emit (.warning text h.file_eq h.options h.options')

theorem reportMessage (h : Likewise start file s m m') (text : String) :
    Likewise start file s (m.reportMessage text) (m'.reportMessage text) where
  sight := h.sight
  same := h.same.reportMessage text text
  here := h.here
  options := h.options
  told := (h.emit (.error text h.file_eq h.options h.options')).told

theorem report (h : Likewise start file s m m') (fault : Fault) :
    Likewise start file s (m.report fault) (m'.report fault) :=
  h.reportMessage fault.message

/-- The same faults are told, each at a line of its own. -/
theorem tellAll (h : Likewise start file s m m') {faults faults' : List (Nat × Fault)}
    (hfaults : List.Forall₂ (fun fault fault' => fault.2 = fault'.2) faults faults') :
    Likewise start file s (m.tellAll faults) (m'.tellAll faults') := by
  induction hfaults generalizing m m' with
  | nil => exact h
  | @cons fault fault' faults faults' hfault _ ih =>
    have hreported : Likewise start file s (m.reportAt fault.1 fault.2)
        (m'.reportAt fault'.1 fault'.2) := by
      rw [hfault]
      exact ((h.atLine fault.1 fault'.1).report fault'.2).atLine m.line m'.line
    exact ih hreported

theorem resemblance : Eval.Resemblance (Likewise start file) where
  same := fun h => h.same
  silent := fun h hsame hmute hmute' => h.quiet hsame hmute hmute'

/-- What is left open at the end of a body is reported on both sides. -/
theorem concluded (h : Likewise start file s n n') (base : Nat) {result result' : Except Fault Flow}
    (hresult : Paired (Flow.EndsAkin s) result result') :
    Likewise start file s (Run.concluded base (result, n)).2 (Run.concluded base (result', n')).2 := by
  have hended : Likewise start file s (Run.ended base (result, n)) (Run.ended base (result', n')) := by
    rw [Run.ended_returned, Run.ended_returned]
    cases hresult with
    | error fault => exact h
    | @ok flow flow' hflow =>
      dsimp only [Except.map]
      cases hback : flow.returned? <;> cases hback' : flow'.returned? <;>
        rw [Flow.EndsAkin, hback, hback'] at hflow
      · dsimp only
        rw [Eval.scopes_akin h.same]
        split
        · exact h.report _
        · exact h
      · cases hflow
      · cases hflow
      · exact h
  exact hended.quiet (hended.same.mapScopes _) ⟨rfl, rfl, rfl, rfl, rfl, rfl⟩
    ⟨rfl, rfl, rfl, rfl, rfl, rfl⟩

/-- A fault that ended a file is reported on both sides. -/
theorem closed (h : Likewise start file s n n') {A : Flow → Flow → Prop}
    {result result' : Except Fault Flow} (hresult : Paired A result result') :
    Likewise start file s (Eval.closed (result, n)) (Eval.closed (result', n')) := by
  cases hresult with
  | ok _ => exact h
  | error fault => exact h.report fault

/-- A call runs bodies that are read alike. -/
theorem frame (hctx : ctx.RunsAlike start) {callee : String} {body body' : List SourceLine}
    {receiver : Option ObjectId} {bound bound' : List (String × Eval.Bound)}
    (hbodies : s.left callee body = s.right callee body') (hbound : Eval.Bound.AllAkin s bound bound') :
    Couples (Likewise start file) ctx ctx s Eval.GivesAkin
      (Eval.inFrame callee (Eval.callBody receiver bound body))
      (Eval.inFrame callee (Eval.callBody receiver bound' body')) := by
  refine resemblance.frame hbound ?_
  intro m m' inside inside' held h hinside hmute hmute'
  obtain rfl := h.sight
  have hentered : Likewise start callee .reading inside inside' :=
    { sight := rfl
      same := hinside
      here := hmute.file
      options := hmute.options.trans h.options
      told := by
        rw [hmute.events, hmute'.events]
        exact h.told }
  obtain ⟨hflow, hafter⟩ := @Context.RunsAlike.runBody _ _ hctx held _ _ true _ _ _
    (Sight.reading_same.mp hbodies) hentered
  refine ⟨.reading, le_rfl, hflow.mono Flow.EndsAkin.gives, rfl, h.same.left hafter.same, h.here,
    hafter.options, hafter.told⟩

/-- The same files are included. -/
theorem includeFile (hctx : ctx.RunsAlike start) (path : String) :
    Couples (Likewise start file) ctx ctx s Same (Eval.includeFile path) (Eval.includeFile path) := by
  refine resemblance.includeFile path ?_
  intro m m' text held h hdepth hread
  obtain rfl := h.sight
  have hopened : Likewise start (m.scriptPath path) .reading
      (Eval.opened (m.scriptPath path) { m with includeDepth := m.includeDepth + 1 })
      (Eval.opened (m.scriptPath path) { m' with includeDepth := m'.includeDepth + 1 }) :=
    ⟨rfl, h.same.deeper.opened _, rfl, h.options, h.told⟩
  obtain ⟨hflow, hafter⟩ := @Context.RunsAlike.runBody _ _ hctx held _ _ false _ _ _
    (.refl (SourceLine.split text)) hopened
  have hclosed := hafter.closed hflow
  exact ⟨.reading, le_rfl, hclosed.same, rfl, h.same.fileLeft hclosed.same, h.here, hclosed.options,
    hclosed.told⟩

/-- Any evaluation keeps machines alike. -/
theorem coupling (hctx : ctx.RunsAlike start) : Eval.Coupling (Likewise start file) ctx ctx where
  toResemblance := resemblance
  print h text := h.emit (.same _)
  warn h text := h.warn text
  debug h text := h.emit (.same _)
  reportMessage h text := h.reportMessage text
  frame _ hbodies hbound := frame hctx hbodies hbound
  includeFile path := includeFile hctx path
  callHost entry args args' hargs := by
    intro held m m' h
    obtain rfl := h.sight
    exact ⟨.reading, le_rfl, hctx.callHost hargs h⟩

end Likewise

/-! Classes built from bodies with the same members. -/

namespace ClassEntry

variable {B : List SourceLine → List SourceLine → Prop} {entries entries' : List ClassEntry}

theorem fields_alike (h : List.Forall₂ (Alike B) entries entries') :
    fields entries = fields entries' := by
  unfold fields
  induction h with
  | nil => rfl
  | cons hentry _ ih => cases hentry <;> simp [List.filterMap_cons, field?, ih]

theorem faults_alike (h : List.Forall₂ (Alike B) entries entries') :
    List.Forall₂ (fun fault fault' => fault.2 = fault'.2) (faults entries) (faults entries') := by
  unfold faults
  induction h with
  | nil => exact .nil
  | cons hentry _ ih =>
    cases hentry with
    | error number number' e => exact .cons rfl ih
    | field | method => exact ih

/-- The methods are the same but for bodies. -/
theorem methods_alike
    (h : List.Forall₂ (Alike fun body body' => s.left file body = s.right file body') entries entries')
    (id : Identity) : Callable.recastAll s.left (methods file id entries) =
      Callable.recastAll s.right (methods file id entries') := by
  induction h generalizing id with
  | nil => rfl
  | @cons entry entry' rest rest' hentry _ ih =>
    have hfirst : Callable.recastAll s.left (methods file id [entry]) =
        Callable.recastAll s.right (methods file id [entry']) := by
      cases hentry with
      | error | field => rfl
      | method number number' signature hbody =>
        simp [methods, method?, Callable.recastAll, Callable.recast, UserFunction.recast, hbody]
    have hlength : (methods file id [entry]).length = (methods file id [entry']).length := by
      have hsame := congrArg List.length hfirst
      simpa [Callable.recastAll] using hsame
    have hrest := ih (id + (methods file id [entry]).length)
    have hsplit (entry : ClassEntry) (rest : List ClassEntry) : methods file id (entry :: rest) =
        methods file id [entry] ++ methods file (id + (methods file id [entry]).length) rest :=
      methods_append file id [entry] rest
    rw [hsplit entry rest, hsplit entry' rest', ← hlength]
    unfold Callable.recastAll at hfirst hrest ⊢
    rw [List.map_append, List.map_append, hfirst, hrest]

end ClassEntry

/-- The items of a line keep machines alike. -/
theorem Likewise.lines (hctx : ctx.RunsAlike start) :
    Run.Coupling (Likewise start file) ctx ctx file fun s =>
      SameMembers fun body body' => s.left file body = s.right file body' where
  toCoupling := coupling hctx
  here h := h.here
  later hle h := SameMembers.mono h fun hbody => Sight.body_later hbody hle
  told h hbody := h.tellAll (ClassEntry.faults_alike hbody)
  fields hbody := ClassEntry.fields_alike hbody
  methods id hbody := ClassEntry.methods_alike hbody id

/-! Scripts. -/

/-- Two scripts on whose lines the same stands, with empty lines between them anywhere. -/
inductive Script.Beside (B C : List SourceLine → List SourceLine → Prop) : Script → Script → Prop
  | nil : Beside B C [] []
  | left {line script script'} (hempty : line.isEmpty = true) (hrest : Beside B C script script') :
    Beside B C (line :: script) script'
  | right {line script script'} (hempty : line.isEmpty = true) (hrest : Beside B C script script') :
    Beside B C script (line :: script')
  | both {line line' script script'} (hline : line.Alike B C line')
    (hrest : Beside B C script script') : Beside B C (line :: script) (line' :: script')

theorem Script.beside_of_occupied {B C : List SourceLine → List SourceLine → Prop}
    {script script' : Script}
    (h : List.Forall₂ (ScriptLine.Alike B C) script.occupied script'.occupied) :
    Beside B C script script' := by
  induction script generalizing script' with
  | nil =>
    induction script' with
    | nil => exact .nil
    | cons line' script' ih =>
      cases hempty : line'.isEmpty with
      | true => exact .right hempty (ih (by simpa [occupied, hempty] using h))
      | false => simp [occupied, hempty] at h
  | cons line script ih =>
    cases hempty : line.isEmpty with
    | true => exact .left hempty (ih (by simpa [occupied, hempty] using h))
    | false =>
      induction script' with
      | nil => simp [occupied, hempty] at h
      | cons line' script' ih' =>
        cases hempty' : line'.isEmpty with
        | true => exact .right hempty' (ih' (by simpa [occupied, hempty'] using h))
        | false =>
          have hsame : line.Alike B C line' ∧
              List.Forall₂ (ScriptLine.Alike B C) (occupied script) (occupied script') := by
            simpa [occupied, hempty, hempty'] using h
          exact .both hsame.1 (ih hsame.2)

namespace Run

variable {base : Nat} {inFunction : Bool}

/-- An empty line only moves the place in the file. -/
theorem runScript_empty {line : ScriptLine} (h : line.isEmpty = true) (flow : Flow) (rest : Script)
    (m : Machine) : runScript base inFunction flow (line :: rest) ctx m =
      runScript base inFunction .nothing rest ctx (m.atLine line.number) := by
  obtain ⟨number, e | _ | ⟨item, items⟩⟩ := line
  · cases h
  · have henter : enterLine base inFunction ⟨number, .ok []⟩ ctx m =
        (.ok (if m.errorCount > m.errorCount then .error else .nothing), m.atLine number) := rfl
    rw [if_neg (Nat.lt_irrefl _)] at henter
    rw [runScript_step, henter]
    rfl
  · cases h

/-- The same is done on a line. -/
theorem enterLine_alike (hctx : ctx.RunsAlike start) {line line' : ScriptLine}
    (hline : line.Alike ReadsAlike (SameMembers ReadsAlike) line')
    (h : Likewise start file .reading m m') :
    Paired (Flow.EndsAkin .reading) (enterLine base inFunction line ctx m).1
        (enterLine base inFunction line' ctx m').1 ∧
      Likewise start file .reading (enterLine base inFunction line ctx m).2
        (enterLine base inFunction line' ctx m').2 := by
  have hsame (body body' : List SourceLine) (h : ReadsAlike body body') :
      Sight.reading.left file body = Sight.reading.right file body' := Sight.reading_same.mpr h
  have hkeeps : Run.Coupling (Likewise start file) ctx ctx file _ := Likewise.lines hctx
  cases hline with
  | error number number' e => exact ⟨.ok rfl, (h.atLine number number').report _⟩
  | items number number' hitems =>
    have hitems : List.Forall₂ (Item.Akin .reading file _) _ _ :=
      hitems.imp fun _ _ h => h.imp (fun _ _ => hsame _ _) fun _ h => SameMembers.mono h (hsame _ _)
    have hline : Couples (Likewise start file) ctx ctx .reading Flow.Akin
        (runLine base inFunction _) (runLine base inFunction _) := hkeeps.runLine inFunction hitems
    obtain ⟨t, -, hflow, hafter⟩ := hline ctx.held _ _ (h.atLine number number')
    obtain rfl := hafter.sight
    exact ⟨hflow.mono Flow.Akin.ends, hafter⟩

/-- Line after line the same is done, and nothing on the lines between. -/
theorem runScript_alike (hctx : ctx.RunsAlike start) {script script' : Script}
    (hscript : Script.Beside ReadsAlike (SameMembers ReadsAlike) script script')
    (h : Likewise start file .reading m m') {flow flow' : Flow} (hflow : flow.returned? = none)
    (hflow' : flow'.returned? = none) :
    Paired (Flow.EndsAkin .reading) (runScript base inFunction flow script ctx m).1
        (runScript base inFunction flow' script' ctx m').1 ∧
      Likewise start file .reading (runScript base inFunction flow script ctx m).2
        (runScript base inFunction flow' script' ctx m').2 := by
  induction hscript generalizing m m' flow flow' with
  | nil =>
    have hends : Flow.EndsAkin .reading flow flow' := by rw [Flow.EndsAkin, hflow, hflow']; rfl
    exact ⟨.ok hends, h⟩
  | @left line _ _ hempty _ ih =>
    rw [runScript_empty hempty]
    exact ih (h.atLine line.number m'.line) rfl hflow'
  | @right line _ _ hempty _ ih =>
    rw [runScript_empty hempty]
    exact ih (h.atLine m.line line.number) hflow rfl
  | @both line line' rest rest' hline _ ih =>
    obtain ⟨hresult, hafter⟩ := @enterLine_alike start m m' file ctx base inFunction hctx _ _ hline h
    rw [runScript_step, runScript_step]
    generalize enterLine base inFunction line ctx m = ran at hresult hafter ⊢
    generalize enterLine base inFunction line' ctx m' = ran' at hresult hafter ⊢
    obtain ⟨result, after⟩ := ran
    obtain ⟨result', after'⟩ := ran'
    cases hresult with
    | error fault => exact ⟨.error fault, hafter⟩
    | @ok flow flow' hends =>
      dsimp only [goOn]
      cases hback : flow.returned? <;> cases hback' : flow'.returned? <;>
        rw [Flow.EndsAkin, hback, hback'] at hends
      · exact ih hafter hback hback'
      · cases hends
      · cases hends
      · exact ⟨.ok hends, hafter⟩

/-- Bodies that are read alike are run alike. -/
theorem runLines_alike (hctx : ctx.RunsAlike start) {lines lines' : List SourceLine}
    (hlines : ReadsAlike lines lines') (h : Likewise start file .reading m m') :
    Paired (Flow.EndsAkin .reading) (runLines lines inFunction ctx m).1
        (runLines lines' inFunction ctx m').1 ∧
      Likewise start file .reading (runLines lines inFunction ctx m).2
        (runLines lines' inFunction ctx m').2 := by
  obtain ⟨hresult, hafter⟩ := @runScript_alike start m m' file ctx m.env.scopes.depth inFunction hctx _ _
    (Script.beside_of_occupied hlines.script) h .nothing .nothing rfl rfl
  rw [runLines_concluded, runLines_concluded, ← Eval.scopes_akin h.same]
  exact ⟨hresult, hafter.concluded _ hresult⟩

end Run

/-- An embedding program that does alike when it is called alike, as long as going back into the
interpreter does. -/
structure Host.Indifferent (host : Host) : Prop where
  answers : ∀ {start file ctx entry args args' m m'}, Context.RunsAlike start ctx →
    Operand.AllAkin .reading args args' → Likewise start file .reading m m' →
      Paired (Value.Akin .reading) (host entry (Session.reentry ctx) args m).1
          (host entry (Session.reentry ctx) args' m').1 ∧
        Likewise start file .reading (host entry (Session.reentry ctx) args m).2
          (host entry (Session.reentry ctx) args' m').2

/-- Without entry points nothing is done. -/
theorem Host.none_indifferent : none.Indifferent := ⟨fun _ _ h => ⟨.ok rfl, h⟩⟩

namespace Session

/-- Whatever nests within a budget is run alike. -/
theorem context_runsAlike {host : Host} (hhost : host.Indifferent) (start : Machine) (budget : Nat)
    (held : List Anchor) : (context host budget held).RunsAlike start := by
  induction budget generalizing held with
  | zero =>
    have hrefuses {α : Type} {A : α → α → Prop} {file : String} {m m' : Machine}
        (h : Likewise start file .reading m m') :
        Paired A (.error (.eval (.callDepthExceeded m.options.maxCallDepth)))
          (.error (.eval (.callDepthExceeded m'.options.maxCallDepth))) := by
      rw [h.options, h.options']
      exact .error _
    exact ⟨fun _ h => ⟨hrefuses h, h⟩, fun _ h => ⟨hrefuses h, h⟩⟩
  | succ budget ih =>
    exact ⟨fun hlines h => Run.runLines_alike (ih _) hlines h,
      fun hargs h => hhost.answers (ih _) hargs h⟩

/-- Texts whose lines are read alike are run alike. -/
theorem runSource_alike {host : Host} (hhost : host.Indifferent) (name : String) {text text' : String}
    (h : ReadsAlike (SourceLine.split text) (SourceLine.split text')) (m : Machine) :
    (runSource host name text m).1 = (runSource host name text' m).1 ∧
      Likewise m name .reading (runSource host name text m).2 (runSource host name text' m).2 := by
  have hopened : Likewise m name .reading (Eval.opened name m) (Eval.opened name m) :=
    ⟨rfl, rfl, rfl, rfl, [], [], rfl, rfl, .nil⟩
  have hctx := context_runsAlike hhost m (budget m) []
  unfold runSource run
  generalize context host (budget m) [] = ctx at hctx
  obtain ⟨hresult, hafter⟩ := @Context.RunsAlike.runBody _ _ hctx ctx.held _ _ false _ _ _ h hopened
  have hclosed := hafter.closed hresult
  rw [Eval.runSource_apply, Eval.runSource_apply]
  exact ⟨congrArg (! ·) (hclosed.same.observe Machine.errorFlag fun _ _ => rfl), hclosed⟩

end Session

end BuildScript
