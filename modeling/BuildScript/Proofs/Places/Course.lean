import BuildScript.Proofs.Likeness.Coupling
import BuildScript.Proofs.Places.Recorded
import BuildScript.Proofs.Run.Building
import BuildScript.Proofs.Run.Scripts
import BuildScript.Proofs.Run.Termination

/-!
The course of a run: which logical line is the innermost one at each moment. A file or a body is run
line by line. While a line is the innermost one, whatever is reported is reported at its place, until
another body or file is entered, whose lines then are; when it is left, the place of the line is in
force again.
-/

namespace BuildScript

open Text (SourceLine)

/-- A line of a file. -/
structure Spot where
  file : String
  line : Nat

/-- The place in force. -/
def Machine.spot (m : Machine) : Spot := ⟨m.file, m.line⟩

/-- A machine, and the texts that were run until then. -/
structure Stage where
  sources : List Source
  machine : Machine

/-- A body or a file of some name is entered; nothing is said. -/
structure Machine.Enters (m : Machine) (file : String) (inside : Machine) : Prop where
  file : inside.file = file
  events : inside.events = m.events
  options : inside.options = m.options

/-- What was entered is left, and the place is the one from before; nothing is said. -/
structure Machine.Resumes (m inside n : Machine) : Prop where
  spot : n.spot = m.spot
  events : n.events = inside.events
  options : n.options = inside.options

variable (held : String → List SourceLine → Prop)
  (nested : Bool → String → List SourceLine → Stage → Stage → Prop)

/-- What can happen while the line at a place is executed. A message is reported at this place, or
at those of the entries of a class body that is built there; or a recorded body or a file runs. -/
inductive Within (spot : Spot) : Stage → Stage → Prop
  | quiet {sources m n} (h : m.Mute n) : Within spot ⟨sources, m⟩ ⟨sources, n⟩
  | next {a b c} (h : Within spot a b) (h' : Within spot b c) : Within spot a c
  | prints {sources m} (text) : Within spot ⟨sources, m⟩ ⟨sources, m.print text⟩
  | debugs {sources m} (text) : Within spot ⟨sources, m⟩ ⟨sources, m.emit (.debug text)⟩
  | warns {sources m} (text) (h : m.spot = spot) :
    Within spot ⟨sources, m⟩ ⟨sources, m.warn text⟩
  | reports {sources m} (text) (h : m.spot = spot) :
    Within spot ⟨sources, m⟩ ⟨sources, m.reportMessage text⟩
  | builds {sources m body} (h : m.spot = spot) (hbody : Recorded held sources spot.file body) :
    Within spot ⟨sources, m⟩ ⟨sources, m.tellAll (ClassEntry.faults (ClassEntry.ofLines body))⟩
  | body {sources later file lines m inside left n} (h : m.spot = spot)
    (hlines : Recorded held sources file lines) (henters : m.Enters file inside)
    (hruns : nested true file lines ⟨sources, inside⟩ ⟨later, left⟩) (hresumes : m.Resumes left n) :
    Within spot ⟨sources, m⟩ ⟨later, n⟩
  | file {sources later name text m inside left n} (h : m.spot = spot)
    (hread : m.files.readText name = .ok text) (henters : m.Enters name inside)
    (hruns : nested false name (SourceLine.split text) ⟨⟨name, text⟩ :: sources, inside⟩
      ⟨later, left⟩) (hresumes : m.Resumes left n) :
    Within spot ⟨sources, m⟩ ⟨later, n⟩

/-- The lines of a script one after another, each at its own place, until one of them returns or is
unwound. `last` is the place of the line that was started last. -/
inductive Passes (base : Nat) (inFunction : Bool) (ctx : Context) (file : String) :
    Script → Option Spot → Stage → Option Spot → Stage → Prop
  | done {last stage} : Passes base inFunction ctx file [] last stage last stage
  | stops {line rest last sources later m n result}
    (hruns : Run.enterLine base inFunction line ctx m = (result, n))
    (hstops : ∀ flow : Flow, result = .ok flow → flow.returned? ≠ none)
    (hwithin : Within held nested ⟨file, line.number⟩ ⟨sources, m.atLine line.number⟩ ⟨later, n⟩) :
    Passes base inFunction ctx file (line :: rest) last ⟨sources, m⟩ (some ⟨file, line.number⟩)
      ⟨later, n⟩
  | goes {line rest last sources later m n stage final} {flow : Flow}
    (hruns : Run.enterLine base inFunction line ctx m = (.ok flow, n))
    (hgoes : flow.returned? = none)
    (hwithin : Within held nested ⟨file, line.number⟩ ⟨sources, m.atLine line.number⟩ ⟨later, n⟩)
    (hrest : Passes base inFunction ctx file rest (some ⟨file, line.number⟩) ⟨later, n⟩ final
      stage) :
    Passes base inFunction ctx file (line :: rest) last ⟨sources, m⟩ final stage

/-- The end of a body or a file. A block left open is reported at the place of the line that was
started last, and so is a fault that unwound a file as far as to its end. -/
inductive Ended (base : Nat) (inFunction : Bool) (last : Option Spot) : Ending → Machine → Prop
  | silent {result m n} (h : m.Mute n) : Ended base inFunction last (result, m) n
  | unterminated {flow m n} (hopen : m.env.scopes.hasOpenBlock base = true) (h : last = some m.spot)
    (hreported : (m.report (.eval .unterminatedBlock)).Mute n) :
    Ended base inFunction last (.ok flow, m) n
  | unwound {fault m n} (hfile : inFunction = false) (h : last = some m.spot)
    (hreported : (m.report fault).Mute n) : Ended base inFunction last (.error fault, m) n

/-- The machine after a body, or after a file, which reports the fault that ended it. -/
def Run.leave (inFunction : Bool) (result : Ending) : Machine :=
  if inFunction then result.2 else Eval.closed result

/-- The lines of a body or a file run, within a budget, from one machine to the other. -/
def Runs (budget : Nat) (inFunction : Bool) (file : String) (lines : List SourceLine)
    (start finish : Stage) : Prop :=
  ∃ anchors last result after,
    let base := start.machine.env.scopes.depth
    let ctx := Session.context .none budget anchors
    Run.runScript base inFunction .nothing (.ofLines lines) ctx start.machine = (result, after) ∧
      Passes held nested base inFunction ctx file (.ofLines lines) none start last
        ⟨finish.sources, after⟩ ∧
      Ended base inFunction last (result, after) finish.machine ∧
      finish.machine = Run.leave inFunction
        (Session.endingWithin budget ⟨anchors, lines, inFunction, start.machine⟩)

/-- The course of the lines of a body or a file while so many bodies and files may still nest. -/
def Course : Nat → Bool → String → List SourceLine → Stage → Stage → Prop
  | 0 => Runs held (fun _ _ _ _ _ => False) 1
  | room + 1 => Runs held (Course room) (room + 2)

/-! What is reported in the course of a run. -/

section

variable (sources : List Source)

/-- The places of the logical lines of what is recorded, class bodies included. -/
inductive LineAt : Spot → Prop
  | line {file lines line} (h : Recorded held sources file lines)
    (hline : line ∈ Script.ofLines lines) : LineAt ⟨file, line.number⟩
  | entry {file lines entry} (h : Recorded held sources file lines)
    (hentry : entry ∈ ClassEntry.ofLines lines) : LineAt ⟨file, entry.line⟩

/-- Something printed, or a message laid out with the place of a logical line. -/
inductive Attributed (options : Options) : Event → Prop
  | printed (text) : Attributed options (.printed text)
  | debug (text) : Attributed options (.debug text)
  | warning {m : Machine} (text) (hoptions : m.options = options)
    (h : LineAt held sources m.spot) : Attributed options (.warning (m.diagnostic text))
  | error {m : Machine} (text) (hoptions : m.options = options)
    (h : LineAt held sources m.spot) : Attributed options (.error (m.diagnostic text))

end

variable {held nested}

theorem LineAt.mono {sources more : List Source} (hmore : sources ⊆ more) {spot : Spot}
    (h : LineAt held sources spot) : LineAt held more spot := by
  cases h with
  | line h hline => exact .line (h.mono hmore) hline
  | entry h hentry => exact .entry (h.mono hmore) hentry

/-- At the place of a logical line stands the line it begins with. -/
theorem LineAt.stands {sources : List Source} {spot : Spot} (h : LineAt held sources spot) :
    ∃ line, line.number = spot.line ∧ Stands held sources spot.file line := by
  cases h with
  | @line file lines line h hline =>
    obtain ⟨first, hfirst, hnumber⟩ := Script.number_mem lines line hline
    exact ⟨first, hnumber.symm, h.stands first hfirst⟩
  | @entry file lines entry h hentry =>
    obtain ⟨first, hfirst, hnumber⟩ := ClassEntry.ofLines_line_mem lines entry hentry
    exact ⟨first, hnumber.symm, h.stands first hfirst⟩

theorem Attributed.mono {sources more : List Source} (hmore : sources ⊆ more) {options : Options}
    {event : Event} (h : Attributed held sources options event) : Attributed held more options event := by
  cases h with
  | printed text => exact .printed text
  | debug text => exact .debug text
  | warning text hoptions h => exact .warning text hoptions (h.mono hmore)
  | error text hoptions h => exact .error text hoptions (h.mono hmore)

variable (held) in
/-- From one stage to another, whatever is said names the place of a logical line. -/
structure Stage.Tells (a b : Stage) : Prop where
  sources : a.sources ⊆ b.sources
  options : b.machine.options = a.machine.options
  events : ∃ told, b.machine.events = told ++ a.machine.events ∧
    ∀ event ∈ told, Attributed held b.sources a.machine.options event

namespace Stage.Tells

variable {a b c : Stage} {sources : List Source} {m n : Machine}

theorem trans (h : a.Tells held b) (h' : b.Tells held c) : a.Tells held c := by
  obtain ⟨hsources, hoptions, told, hevents, htold⟩ := h
  obtain ⟨hsources', hoptions', told', hevents', htold'⟩ := h'
  refine ⟨List.Subset.trans hsources hsources', hoptions'.trans hoptions, told' ++ told, ?_, ?_⟩
  · rw [hevents', hevents, List.append_assoc]
  · intro event hmem
    rcases List.mem_append.mp hmem with hmem | hmem
    · exact hoptions ▸ htold' event hmem
    · exact (htold event hmem).mono hsources'

theorem mute (hevents : n.events = m.events) (hoptions : n.options = m.options) :
    Tells held ⟨sources, m⟩ ⟨sources, n⟩ :=
  ⟨List.Subset.refl _, hoptions, [], hevents, by simp⟩

/-- Going to another line says nothing. -/
theorem of_atLine {line : Nat} (h : Tells held ⟨sources, m.atLine line⟩ b) :
    Tells held ⟨sources, m⟩ b :=
  ⟨h.sources, h.options, h.events⟩

theorem emit {event : Event} (hevents : n.events = event :: m.events)
    (hoptions : n.options = m.options) (h : Attributed held sources m.options event) :
    Tells held ⟨sources, m⟩ ⟨sources, n⟩ :=
  ⟨List.Subset.refl _, hoptions, [event], hevents, by simpa using h⟩

theorem report (text : String) (h : LineAt held sources m.spot) :
    Tells held ⟨sources, m⟩ ⟨sources, m.reportMessage text⟩ :=
  emit rfl rfl (.error text rfl h)

/-- The faults of a class body are told at the places of its entries. -/
theorem tellAll {body : List SourceLine} (hbody : Recorded held sources m.file body)
    {faults : List (Nat × Fault)} (hfaults : faults ⊆ ClassEntry.faults (ClassEntry.ofLines body)) :
    Tells held ⟨sources, m⟩ ⟨sources, m.tellAll faults⟩ := by
  induction faults generalizing m with
  | nil => exact mute rfl rfl
  | cons fault faults ih =>
    obtain ⟨hfault, hfaults⟩ := List.cons_subset.mp hfaults
    obtain ⟨entry, hentry, hfault⟩ := List.mem_filterMap.mp hfault
    have hline : fault.1 = entry.line := by
      unfold ClassEntry.fault? at hfault
      split at hfault
      · cases hfault
      · cases hfault
        rfl
    have hspot : LineAt held sources (m.atLine fault.1).spot := hline ▸ .entry hbody hentry
    have hattributed : Attributed held sources m.options
        (.error ((m.atLine fault.1).diagnostic fault.2.message)) :=
      .error fault.2.message rfl hspot
    have hreported : Tells held ⟨sources, m⟩ ⟨sources, m.reportAt fault.1 fault.2⟩ :=
      emit rfl rfl hattributed
    exact hreported.trans (ih hbody hfaults)

end Stage.Tells

/-- The nested runs tell places of logical lines only. -/
def TellsNested (held : String → List SourceLine → Prop)
    (nested : Bool → String → List SourceLine → Stage → Stage → Prop) : Prop :=
  ∀ {inFunction file lines a b}, Recorded held a.sources file lines → a.machine.file = file →
    nested inFunction file lines a b → a.Tells held b

theorem Within.tells (hnested : TellsNested held nested) {spot : Spot} {a b : Stage}
    (h : Within held nested spot a b) (hspot : LineAt held a.sources spot) :
    a.Tells held b := by
  induction h with
  | quiet h => exact .mute h.events h.options
  | next _ _ ih ih' =>
    have hfirst := ih hspot
    exact hfirst.trans (ih' (hspot.mono hfirst.sources))
  | prints text => exact .emit rfl rfl (.printed text)
  | debugs text => exact .emit rfl rfl (.debug text)
  | warns text h => exact .emit rfl rfl (.warning text rfl (h ▸ hspot))
  | reports text h => exact .report text (h ▸ hspot)
  | builds h hbody =>
    cases h
    exact .tellAll hbody (List.Subset.refl _)
  | @body sources later file lines m inside left n h hlines henters hruns hresumes =>
    have hinside := hnested hlines henters.file hruns
    have hentered : Stage.Tells held ⟨sources, m⟩ ⟨sources, inside⟩ :=
      .mute henters.events henters.options
    exact (hentered.trans hinside).trans (.mute hresumes.events hresumes.options)
  | @file sources later name text m inside left n h hread henters hruns hresumes =>
    have hinside := hnested (.source (List.mem_cons_self ..)) henters.file hruns
    have hentered : Stage.Tells held ⟨sources, m⟩ ⟨⟨name, text⟩ :: sources, inside⟩ :=
      ⟨List.subset_cons_self .., henters.options, [], henters.events, by simp⟩
    exact (hentered.trans hinside).trans (.mute hresumes.events hresumes.options)

theorem Passes.tells (hnested : TellsNested held nested) {base : Nat} {inFunction : Bool}
    {ctx : Context} {file : String} {lines : List SourceLine} {script : Script}
    (hscript : script ⊆ Script.ofLines lines) {last final : Option Spot} {a b : Stage}
    (h : Passes held nested base inFunction ctx file script last a final b)
    (hlines : Recorded held a.sources file lines)
    (hlast : ∀ spot, last = some spot → LineAt held a.sources spot) :
    a.Tells held b ∧ ∀ spot, final = some spot → LineAt held b.sources spot := by
  induction h with
  | @done last stage => exact ⟨.mute rfl rfl, hlast⟩
  | stops hruns hstops hwithin =>
    obtain ⟨hline, -⟩ := List.cons_subset.mp hscript
    have htells := hwithin.tells hnested (.line hlines hline)
    have hstarted := LineAt.mono htells.sources (.line hlines hline)
    exact ⟨htells.of_atLine, fun _ hspot => Option.some.inj hspot ▸ hstarted⟩
  | goes hruns hgoes hwithin hrest ih =>
    obtain ⟨hline, hrest⟩ := List.cons_subset.mp hscript
    have htells := hwithin.tells hnested (.line hlines hline)
    have hstarted := LineAt.mono htells.sources (.line hlines hline)
    obtain ⟨hafter, hfinal⟩ := ih hrest (hlines.mono htells.sources)
      fun _ hspot => Option.some.inj hspot ▸ hstarted
    exact ⟨htells.of_atLine.trans hafter, hfinal⟩

theorem Ended.tells {base : Nat} {inFunction : Bool} {last : Option Spot} {sources : List Source}
    {ending : Ending} {n : Machine} (h : Ended base inFunction last ending n)
    (hlast : ∀ spot, last = some spot → LineAt held sources spot) :
    Stage.Tells held ⟨sources, ending.2⟩ ⟨sources, n⟩ := by
  cases h with
  | silent h => exact .mute h.events h.options
  | unterminated hopen h hreported =>
    exact (Stage.Tells.report _ (hlast _ h)).trans (.mute hreported.events hreported.options)
  | @unwound fault m n hfile h hreported =>
    exact (Stage.Tells.report fault.message (hlast _ h)).trans
      (.mute hreported.events hreported.options)

theorem Runs.tells (hnested : TellsNested held nested) {budget : Nat} :
    TellsNested held (Runs held nested budget) := by
  rintro inFunction file lines a ⟨sources, finish⟩ hlines -
    ⟨anchors, last, result, after, -, hpasses, hended, -⟩
  obtain ⟨htells, hfinal⟩ := hpasses.tells hnested (List.Subset.refl _) hlines (by simp)
  exact htells.trans (hended.tells hfinal)

/-- Whatever is reported in the course of a run names the place of a logical line. -/
theorem Course.tells (room : Nat) : TellsNested held (Course held room) := by
  induction room with
  | zero => exact Runs.tells fun _ _ h => h.elim
  | succ room ih => exact Runs.tells ih

end BuildScript
