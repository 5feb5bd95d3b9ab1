import Mathlib
import BuildScript.Proofs.Spacing.Running

/-!
A blank or comment line put into a text. Unless it comes right after a line that goes on, or between a
header and the line with its brace, the text does what it did, and its messages name other lines at
most.
-/

namespace BuildScript

open Text (SourceLine)

/-- Lines with their numbers, from the given one on. -/
def numbered (first : Nat) (texts : List String) : List SourceLine :=
  (texts.zipIdx first).map fun (text, number) => ⟨number, text⟩

variable {shut : Nat → Prop} {bound : Prop} {before after : List String} {blank : String}

/-- The same lines, numbered otherwise. -/
theorem Spaced.renumbered (first first' : Nat) (texts : List String) :
    Spaced shut bound (numbered first texts) (numbered first' texts) := by
  induction texts generalizing bound first first' with
  | nil => exact .nil
  | cons text texts ih => exact .line first' (ih (first + 1) (first' + 1))

/-- One idle line more. -/
theorem Spaced.inserted (hblank : SourceLine.isIdle ⟨0, blank⟩ = true) (first : Nat)
    (hbound : before = [] → ¬bound)
    (hgoesOn : ∀ last ∈ before.getLast?, ¬SourceLine.GoesOn ⟨0, last⟩)
    (hshut : ¬shut (first + before.length)) :
    Spaced shut bound (numbered first (before ++ after))
      (numbered first (before ++ blank :: after)) := by
  induction before generalizing bound first with
  | nil =>
    refine .idle (hbound rfl) hblank (fun next hnext => ?_) (.renumbered first (first + 1) after)
    cases after with
    | nil => cases hnext
    | cons text after =>
      cases hnext
      exact hshut
  | cons text before ih =>
    refine .line first (ih (first + 1) (fun hnil => ?_) (fun last hlast => ?_) ?_)
    · subst hnil
      exact hgoesOn text rfl
    · cases before with
      | nil => cases hlast
      | cons next before => exact hgoesOn last hlast
    · rwa [Nat.add_assoc, Nat.add_comm 1]

/-! Headers with their brace on the next line. -/

variable {kind : BodyKind} {line : SourceLine} {lines rest : List SourceLine} {number : Nat}

theorem hangingBrace_cons : HangingBrace kind (line :: rest) number ↔
    (∃ opening, Hangs kind line rest opening ∧ opening.number = number) ∨
      HangingBrace kind (kind.leftAfter line rest) number ∨
        ∃ kind' body, Declares kind (line :: rest) kind' body ∧ HangingBrace kind' body number := by
  constructor
  · intro h
    cases h with
    | here h => exact .inl ⟨_, h, rfl⟩
    | later h => exact .inr (.inl h)
    | inside hbody h => exact .inr (.inr ⟨_, _, hbody, h⟩)
  · rintro (⟨opening, h, rfl⟩ | h | ⟨kind', body, hbody, h⟩)
    · exact .here h
    · exact .later h
    · exact .inside hbody h

/-- The line with the brace comes right after the logical line. -/
theorem Hangs.next {opening : SourceLine} (h : Hangs kind line rest opening) :
    (spliceLine line rest).2.head? = some opening := by
  cases h with
  | declaration hline | method hline => rw [hline]; rfl

/-- A declaration stands on the line. -/
def ScriptLine.declares (line : ScriptLine) : Bool :=
  match line.items with
  | .ok items => items.any Item.declares
  | .error _ => false

/-- A header is one of a declaration. -/
theorem HangingBrace.declares (h : HangingBrace .statements lines number) :
    (Script.ofLines lines).any ScriptLine.declares = true := by
  generalize hkind : BodyKind.statements = kind at h
  induction h with
  | @here kind line rest opening h =>
    cases h with
    | method => cases hkind
    | @declaration _ _ tokens _ left items header hline hheader hopens =>
      rw [Script.ofLines_cons, List.any_cons, Script.readLine, hline]
      dsimp only [Script.lineOf]
      rw [hheader.ofTokens_eq]
      generalize Body.capture header.name line.number [] (opening :: left) = captured
      obtain ⟨e | ⟨body, _ | resume⟩, after⟩ := captured <;>
        simp [ScriptLine.declares, Item.afterBody, Item.declares]
  | later h ih =>
    subst hkind
    rw [Script.ofLines_cons, List.any_cons]
    exact Bool.or_eq_true_iff.mpr (.inr (ih rfl))
  | inside hbody _ _ =>
    subst hkind
    cases hbody with
    | declaration hline hitem =>
      exact List.any_eq_true.mpr ⟨_, hline, List.any_eq_true.mpr ⟨_, hitem, rfl⟩⟩

namespace Session

/-- A line that holds only blanks or a comment, put between any two lines of a text, changes nothing but
line numbers, as long as the line before it does not go on and the line after it does not hold the brace
of a header right before it, in the text itself or in a body declared there. The same variables are
bound to the same values, with the same bodies but for such lines and for line numbers, the same is
printed and done to the files, and the same messages are reported in the same order, but for the lines
they name. -/
theorem idle_line_unseen {host : Host} (hhost : host.Indifferent) (name : String)
    {text text' : String} (hlines : Text.lines text = before ++ after)
    (hlines' : Text.lines text' = before ++ blank :: after)
    (hblank : SourceLine.isIdle ⟨0, blank⟩ = true)
    (hgoesOn : ∀ last ∈ before.getLast?, ¬SourceLine.GoesOn ⟨0, last⟩)
    (hbrace : ¬HangingBrace .statements (SourceLine.split text) (before.length + 1)) (m : Machine) :
    let ran := runSource host name text m
    let ran' := runSource host name text' m
    ran.1 = ran'.1 ∧ ran.2.recast (fun _ => bare) = ran'.2.recast (fun _ => bare) ∧
      ∃ told told', ran.2.events = told ++ m.events ∧ ran'.2.events = told' ++ m.events ∧
        List.Forall₂ (Event.Alike m.options) told told' := by
  have hspaced : Widened (HangingBrace .statements (SourceLine.split text)) (SourceLine.split text)
      (SourceLine.split text') := by
    have hsplit : SourceLine.split text = numbered 1 (before ++ after) := by
      rw [← hlines]
      rfl
    have hsplit' : SourceLine.split text' = numbered 1 (before ++ blank :: after) := by
      rw [← hlines']
      rfl
    conv => arg 2; rw [hsplit]
    rw [hsplit']
    exact .inserted hblank 1 (fun _ => not_false) hgoesOn (by rwa [Nat.add_comm])
  have halike := SpacedOut.readsAlike ⟨_, hspaced, fun _ h => h⟩
  obtain ⟨hresult, hafter⟩ := runSource_alike hhost name halike m
  exact ⟨hresult, hafter.same.later Sight.reading_le, hafter.told⟩

/-- A procedure with an `if` in its body, and a call. -/
def printing : List SourceLine :=
  [⟨1, "procedure f"⟩, ⟨2, "\x7b"⟩, ⟨3, "if (true)"⟩, ⟨4, "print(x)"⟩, ⟨5, "\x7d"⟩, ⟨6, "f()"⟩]

/-- The one header stands above line 2: there is none in the body or behind it. -/
theorem printing_hangs (h : HangingBrace .statements printing number) : number = 2 := by
  have hnone {lines : List SourceLine}
      (hlines : (Script.ofLines lines).any ScriptLine.declares = false) :
      ¬HangingBrace .statements lines number := by
    intro h
    rw [h.declares] at hlines
    cases hlines
  rcases hangingBrace_cons.mp h with ⟨opening, hhere, rfl⟩ | hlater | ⟨kind, body, hbody, hinner⟩
  · have hsecond : (spliceLine ⟨1, "procedure f"⟩ printing.tail).2.head? = some ⟨2, "\x7b"⟩ := by cbv
    cases hsecond.symm.trans hhere.next
    rfl
  · have hleft : BodyKind.statements.leftAfter ⟨1, "procedure f"⟩ printing.tail =
        [⟨6, "f()"⟩] := by cbv
    have hlater : HangingBrace .statements [⟨6, "f()"⟩] number := hleft ▸ hlater
    exact absurd hlater (hnone (by cbv))
  · have hscript : Script.ofLines printing =
        [⟨1, .ok [.declaration (.procedure "f") (.ok [⟨3, "if (true)"⟩, ⟨4, "print(x)"⟩])]⟩,
          ⟨6, .ok [.expression (.call (.identifier "f") [])]⟩] := by cbv
    cases hbody with
    | declaration hline hitem =>
      have hline : _ ∈ Script.ofLines printing := hline
      rw [hscript] at hline
      rcases List.mem_cons.mp hline with heq | hline
      · cases heq
        cases List.mem_singleton.mp hitem
        exact absurd hinner (hnone (by cbv))
      · cases List.mem_singleton.mp hline
        cases List.mem_singleton.mp hitem

/-- A comment between an `if` and its statement, in the body of a procedure. -/
theorem comment_unseen_inside :
    let before := ["procedure f", "\x7b", "if (true)"]
    let after := ["print(x)", "\x7d", "f()"]
    let text := "procedure f\n\x7b\nif (true)\nprint(x)\n\x7d\nf()"
    let text' := "procedure f\n\x7b\nif (true)\n // now\nprint(x)\n\x7d\nf()"
    let start := Machine.initial .standard (.shelf ⟨[]⟩)
    let ran := runSource .none "main.eve" text start
    let ran' := runSource .none "main.eve" text' start
    Text.lines text = before ++ after ∧ Text.lines text' = before ++ " // now" :: after ∧
      SourceLine.isIdle ⟨0, " // now"⟩ = true ∧
      (∀ last ∈ before.getLast?, ¬SourceLine.GoesOn ⟨0, last⟩) ∧
      ¬HangingBrace .statements (SourceLine.split text) (before.length + 1) ∧
      ran.1 = ran'.1 ∧ ran.2.recast (fun _ => bare) = ran'.2.recast (fun _ => bare) ∧
        ∃ told told', ran.2.events = told ++ start.events ∧ ran'.2.events = told' ++ start.events ∧
          List.Forall₂ (Event.Alike start.options) told told' := by
  intro before after text text' start ran ran'
  have hlines : Text.lines text = before ++ after := by cbv
  have hlines' : Text.lines text' = before ++ " // now" :: after := by cbv
  have hblank : SourceLine.isIdle ⟨0, " // now"⟩ = true := by cbv
  have hgoesOn : ∀ last ∈ before.getLast?, ¬SourceLine.GoesOn ⟨0, last⟩ := by
    intro last hlast
    have hthird : before.getLast? = some "if (true)" := rfl
    cases hthird.symm.trans hlast
    rintro ⟨lexed, hlexed, hmark⟩
    have hline : (Lexed.ofLine "if (true)").map Lexed.continuation = .ok false := by cbv
    rw [hlexed] at hline
    cases hmark.symm.trans (Except.ok.inj hline)
  have hbrace : ¬HangingBrace .statements (SourceLine.split text) (before.length + 1) := by
    have hsplit : SourceLine.split text = printing := by cbv
    rw [hsplit]
    intro h
    cases printing_hangs h
  exact ⟨hlines, hlines', hblank, hgoesOn, hbrace, idle_line_unseen Host.none_indifferent "main.eve"
    hlines hlines' hblank hgoesOn hbrace start⟩

end Session

end BuildScript
