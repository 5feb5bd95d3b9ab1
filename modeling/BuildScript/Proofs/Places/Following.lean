import BuildScript.Proofs.Likeness.Frames
import BuildScript.Proofs.Likeness.Running
import BuildScript.Proofs.Places.Course
import BuildScript.Proofs.Places.Holding

/-!
Following a line. Its run is compared with itself: under the sight of the texts that were run so far
a machine is like itself if all bodies it holds are recorded, and any evaluation keeps machines
alike, so the bodies it goes into are recorded, and all it does is what can happen within the line.
-/

namespace BuildScript

open Text (SourceLine)
open Eval (Couples Same Paired)

section

variable (held : String → List SourceLine → Prop)
  (nested : Bool → String → List SourceLine → Stage → Stage → Prop)

/-- Lines that were run on two machines that are the same under the sight of the texts run so far.
They led to the same under that of the texts run until then, back to where they stood, and ran as is
asked of nested lines. -/
structure Followed (sources : List Source) (file : String) (launch : Launch) (ran ran' : Ending)
    (later : List Source) : Prop where
  more : sources ⊆ later
  flow : Paired (Flow.Akin (.ofSources held later)) ran.1 ran'.1
  same : ran.2.Akin (.ofSources held later) ran'.2
  standing : Standing.of ran.2 = Standing.of launch.machine
  runs : nested launch.inFunction file launch.lines ⟨sources, launch.machine⟩
    ⟨later, Run.leave launch.inFunction ran⟩

/-- Recorded lines that begin meanwhile, in machines that hold recorded bodies only, are followed.
There is no embedding program. -/
structure Context.Follows (standing : Standing) (ctx : Context) : Prop where
  runBody : ∀ {launch file sources m'}, standing.Begins launch →
    Recorded held sources file launch.lines → launch.machine.file = file →
    launch.machine.Akin (.ofSources held sources) m' →
    ∃ later, Followed held nested sources file launch
      (ctx.runBody launch.held launch.lines launch.inFunction launch.machine)
      (ctx.runBody launch.held launch.lines launch.inFunction m') later
  callHost : ∀ anchors entry args m, ctx.callHost anchors entry args m = (.ok .nothing, m)

/-- A machine reached while the line at a place is executed, next to one that is the same under the
sight of the texts that were run so far. -/
structure Reached (spot : Spot) (start : Stage) (sources : List Source) (m m' : Machine) :
    Prop where
  more : start.sources ⊆ sources
  same : m.Akin (.ofSources held sources) m'
  here : m.spot = spot
  standing : Standing.of m = Standing.of start.machine
  within : Within held nested spot start ⟨sources, m⟩

/-- The relation that is kept while the line at a place is executed. -/
def Follows (spot : Spot) (start : Stage) (s : Sight) (m m' : Machine) : Prop :=
  ∃ sources, s = .ofSources held sources ∧ Reached held nested spot start sources m m'

end

/-- A class body compared with itself, under a sight that takes it and the bodies of its methods for
the same on both sides. -/
structure Sight.SameClass (file : String) (s : Sight) (lines lines' : List SourceLine) : Prop where
  eq : lines = lines'
  same : s.left file lines = s.right file lines
  methods : ∀ {line signature body},
    ⟨line, .ok (.method signature body)⟩ ∈ ClassEntry.ofLines lines →
      s.left file body = s.right file body

variable {held : String → List SourceLine → Prop}
  {nested : Bool → String → List SourceLine → Stage → Stage → Prop} {spot : Spot} {start : Stage}
  {sources later : List Source} {s : Sight} {m m' n n' : Machine} {ctx : Context}

namespace Standing

theorem of_mute (h : m.Mute n) : of n = of m := by
  simp [of, h.callDepth, h.includeDepth, h.options]

/-- A call that is over leaves the depths as they were. -/
theorem of_left (h : of n = (of m).called) : of (Eval.left m n) = of m := by
  obtain ⟨hcalls, hincludes, hoptions⟩ := Standing.mk.inj h
  simp [of, Eval.left, hcalls, hincludes, hoptions]

/-- So does an include. -/
theorem of_fileLeft (h : of n = (of m).included) : of (Eval.fileLeft m n) = of m := by
  obtain ⟨hcalls, hincludes, hoptions⟩ := Standing.mk.inj h
  simp [of, Eval.fileLeft, hcalls, hincludes, hoptions]

/-- Telling the faults of a class body leaves them, too. -/
theorem of_tellAll (m : Machine) (faults : List (Nat × Fault)) : of (m.tellAll faults) = of m := by
  induction faults generalizing m with
  | nil => rfl
  | cons fault faults ih => exact ih _

end Standing

namespace Reached

/-- One more step that ends at the place of the line. -/
theorem step (h : Reached held nested spot start sources m m') (hlater : sources ⊆ later)
    (hsame : n.Akin (.ofSources held later) n') (hspot : n.spot = m.spot)
    (hstanding : Standing.of n = Standing.of m)
    (hwithin : Within held nested spot ⟨sources, m⟩ ⟨later, n⟩) :
    Reached held nested spot start later n n' :=
  ⟨List.Subset.trans h.more hlater, hsame, hspot.trans h.here, hstanding.trans h.standing,
    h.within.next hwithin⟩

/-- Machines that go on without a word. -/
theorem quiet (h : Reached held nested spot start sources m m')
    (hsame : n.Akin (.ofSources held sources) n') (hmute : m.Mute n) :
    Reached held nested spot start sources n n' := by
  have hspot : n.spot = m.spot := by simp [Machine.spot, hmute.file, hmute.line]
  exact h.step (List.Subset.refl _) hsame hspot (Standing.of_mute hmute) (.quiet hmute)

end Reached

namespace Follows

theorem resemblance : Eval.Resemblance (Follows held nested spot start) where
  same := by
    rintro s m m' ⟨sources, rfl, h⟩
    exact h.same
  silent := by
    rintro s m m' n n' ⟨sources, rfl, h⟩ hsame hmute -
    exact ⟨sources, rfl, h.quiet hsame hmute⟩

/-- Something said, which changes neither texts nor place nor depths. -/
theorem said (h : Follows held nested spot start s m m') (hsame : m.Akin s m' → n.Akin s n')
    (hspot : n.spot = m.spot) (hstanding : Standing.of n = Standing.of m)
    (hwithin : ∀ sources, m.spot = spot →
      Within held nested spot ⟨sources, m⟩ ⟨sources, n⟩) :
    Follows held nested spot start s n n' := by
  obtain ⟨sources, rfl, h⟩ := h
  refine ⟨sources, rfl, ?_⟩
  exact h.step (List.Subset.refl _) (hsame h.same) hspot hstanding (hwithin sources h.here)

/-- A call runs a recorded body and comes back to the line. -/
theorem frame (hctx : ctx.Follows held nested (.of start.machine)) {file : String}
    {body body' : List SourceLine} {receiver : Option ObjectId}
    {bound bound' : List (String × Eval.Bound)}
    (hdeepens : Eval.Deepens (Follows held nested spot start))
    (hbodies : s.left file body = s.right file body') (hbound : Eval.Bound.AllAkin s bound bound') :
    Couples (Follows held nested spot start) ctx ctx s Flow.Akin
      (Eval.inFrame file (Eval.callBody receiver bound body))
      (Eval.inFrame file (Eval.callBody receiver bound' body')) := by
  have hcalls : 0 < (Standing.of start.machine).calls := by
    obtain ⟨_, other, _, ⟨_, _, hother⟩, hdepth⟩ := hdeepens
    rw [← hother.standing]
    exact Nat.sub_pos_of_lt hdepth
  refine resemblance.frame hbound ?_
  rintro m m' inside inside' anchors ⟨sources, rfl, h⟩ hinside hmute -
  obtain ⟨hrecorded, rfl⟩ := Sight.ofSources_same.mp hbodies
  have hstanding : Standing.of inside = (Standing.of m).called := Standing.of_mute hmute
  have hbegins : (Standing.of start.machine).Begins ⟨anchors, body, true, inside⟩ :=
    .body hcalls (h.standing ▸ hstanding)
  obtain ⟨later, hlater, hflow, hafter, hback, hruns⟩ :=
    hctx.runBody hbegins hrecorded hmute.file hinside
  dsimp only at hflow hafter hback hruns
  refine ⟨.ofSources held later, Sight.ofSources_le hlater, hflow, later, rfl, ?_⟩
  have henters : m.Enters file inside := ⟨hmute.file, hmute.events, hmute.options⟩
  refine h.step hlater (h.same.left hafter) rfl (Standing.of_left (hback.trans hstanding)) ?_
  exact .body h.here hrecorded henters hruns ⟨rfl, rfl, rfl⟩

/-- An include runs a file and comes back to the line. -/
theorem includeFile (hctx : ctx.Follows held nested (.of start.machine)) (path : String) :
    Couples (Follows held nested spot start) ctx ctx s Same (Eval.includeFile path)
      (Eval.includeFile path) := by
  refine resemblance.includeFile path ?_
  rintro m m' text anchors ⟨sources, rfl, h⟩ hdepth hread
  have hmore : sources ⊆ ⟨m.scriptPath path, text⟩ :: sources := List.subset_cons_self ..
  have hopened := (h.same.deeper.opened (m.scriptPath path)).later (Sight.ofSources_le hmore)
  have hpositive : 0 < (Standing.of m).files := Nat.sub_pos_of_lt hdepth
  have hbegins : (Standing.of start.machine).Begins ⟨anchors, SourceLine.split text, false,
      Eval.opened (m.scriptPath path) { m with includeDepth := m.includeDepth + 1 }⟩ :=
    .file (h.standing ▸ hpositive) (h.standing ▸ rfl)
  obtain ⟨later, hlater, hflow, hafter, hback, hruns⟩ :=
    hctx.runBody hbegins (.source (List.mem_cons_self ..)) rfl hopened
  have hclosed := hafter.closed hflow
  have hmore := List.Subset.trans hmore hlater
  refine ⟨.ofSources held later, Sight.ofSources_le hmore, hclosed, later, rfl, ?_⟩
  have hstanding := (Eval.Agrees.of_closed _).trans hback
  refine h.step hmore (h.same.fileLeft hclosed) rfl (Standing.of_fileLeft hstanding) ?_
  have henters : m.Enters (m.scriptPath path)
      (Eval.opened (m.scriptPath path) { m with includeDepth := m.includeDepth + 1 }) :=
    ⟨rfl, rfl, rfl⟩
  exact .file h.here hread henters hruns ⟨rfl, rfl, rfl⟩

/-- Any evaluation keeps to the line. -/
theorem coupling (hctx : ctx.Follows held nested (.of start.machine)) :
    Eval.Coupling (Follows held nested spot start) ctx ctx where
  toResemblance := resemblance
  print h text := h.said id rfl rfl fun _ _ => .prints text
  warn h text := h.said id rfl rfl fun _ hhere => .warns text hhere
  debug h text := h.said id rfl rfl fun _ _ => .debugs text
  reportMessage h text :=
    h.said (fun hsame => hsame.reportMessage text text) rfl rfl fun _ hhere => .reports text hhere
  frame hdeepens hbodies hbound := (frame hctx hdeepens hbodies hbound).mono Flow.Akin.givesAkin
  includeFile path := includeFile hctx path
  callHost entry args args' hargs := by
    intro anchors m m' h
    have hcall (m : Machine) : Eval.callHost entry args { ctx with held := anchors } m =
        (.ok .nothing, m) := hctx.callHost anchors entry args m
    have hcall' (m : Machine) : Eval.callHost entry args' { ctx with held := anchors } m =
        (.ok .nothing, m) := hctx.callHost anchors entry args' m
    rw [hcall, hcall']
    exact ⟨_, le_rfl, .ok rfl, h⟩

end Follows

namespace ClassEntry

/-- The bodies of the methods of a class are those its entries declare. -/
theorem mem_allBodies {file : String} {id : Identity} {entries : List ClassEntry} {body : Declared}
    (h : body ∈ Callable.allBodies (methods file id entries)) :
    body.1 = file ∧ ∃ line signature, ⟨line, .ok (.method signature body.2)⟩ ∈ entries := by
  obtain ⟨method, hmethod, hbody⟩ := List.mem_flatMap.mp h
  obtain ⟨index, hindex, rfl⟩ := List.mem_mapIdx.mp hmethod
  obtain ⟨entry, hentry, hdeclares⟩ := List.mem_filterMap.mp (List.getElem_mem hindex)
  generalize (entries.filterMap (·.method? file))[index] = declared at hdeclares hbody
  obtain ⟨line, _ | ⟨_ | ⟨signature, lines⟩⟩⟩ := entry <;> cases hdeclares
  cases List.mem_singleton.mp hbody
  exact ⟨rfl, line, signature, hentry⟩

end ClassEntry

namespace Follows

/-- Building a class tells its faults at their lines. -/
theorem told (h : Follows held nested spot start s m m') {body : List SourceLine}
    (hbody : s.left spot.file body = s.right spot.file body) :
    Follows held nested spot start s
      (m.tellAll (ClassEntry.faults (ClassEntry.ofLines body)))
      (m'.tellAll (ClassEntry.faults (ClassEntry.ofLines body))) := by
  obtain ⟨sources, rfl, h⟩ := h
  refine ⟨sources, rfl, h.step (List.Subset.refl _) (h.same.tellAll rfl) ?_ ?_ ?_⟩
  · simp [Machine.spot]
  · exact Standing.of_tellAll m _
  · exact .builds h.here (Sight.ofSources_same.mp hbody).1

/-- The items of a line are executed while the line is. -/
theorem lines (hctx : ctx.Follows held nested (.of start.machine)) :
    Run.Coupling (Follows held nested spot start) ctx ctx spot.file (Sight.SameClass spot.file) where
  toCoupling := coupling hctx
  here := by
    rintro s m m' ⟨sources, rfl, h⟩
    exact congrArg Spot.file h.here
  later hle h := ⟨h.eq, Sight.body_later h.same hle, fun hentry => Sight.body_later (h.methods hentry) hle⟩
  told h hbody := by
    obtain ⟨rfl, hsame, -⟩ := hbody
    exact h.told hsame
  fields hbody := by rw [hbody.eq]
  methods id hbody := by
    obtain ⟨rfl, -, hmethods⟩ := hbody
    apply Callable.recastAll_congr
    intro body hmem
    obtain ⟨hfile, line, signature, hentry⟩ := ClassEntry.mem_allBodies hmem
    rw [hfile]
    exact hmethods hentry

end Follows

namespace Run

variable {file : String} {lines : List SourceLine} {base : Nat} {inFunction : Bool}

end Run

end BuildScript
