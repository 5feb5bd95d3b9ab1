import BuildScript.Proofs.Program.Layout
import BuildScript.Proofs.Script.Members

/-!
Where the lines of bodies stand. A body is captured from the lines of a file or of another body. The
number of each of its lines is that of the physical line it was written on or, if it was cut out of a
logical line, that of the physical line where this one begins.
-/

namespace BuildScript

open Text (SourceLine)

/-- A text that was run as the file of some name. -/
structure Source where
  name : String
  text : String

variable (held : String → List SourceLine → Prop) (sources : List Source)

/-- The lines of the texts that were run, of the bodies held from before, and of all the bodies that
are declared in such lines. -/
inductive Recorded : String → List SourceLine → Prop
  | source {name text} (h : ⟨name, text⟩ ∈ sources) : Recorded name (SourceLine.split text)
  | held {file lines} (h : held file lines) : Recorded file lines
  | declared {file lines number items header body} (hlines : Recorded file lines)
    (hline : ⟨number, .ok items⟩ ∈ Script.ofLines lines)
    (hitem : .declaration header (.ok body) ∈ items) : Recorded file body
  | method {file lines number signature body} (hlines : Recorded file lines)
    (hentry : ⟨number, .ok (.method signature body)⟩ ∈ ClassEntry.ofLines lines) :
    Recorded file body

/-- A line stands in the file of a name: as a line of a text that was run or of a body held from
before, or as a piece of the logical line that begins where a line of the same number stands. -/
inductive Stands (file : String) : SourceLine → Prop
  | source {text line} (h : ⟨file, text⟩ ∈ sources) (hline : line ∈ SourceLine.split text) :
    Stands file line
  | held {lines line} (h : held file lines) (hline : line ∈ lines) : Stands file line
  | piece {line rest tokens piece} (hline : Stands file line) (hrest : ∀ next ∈ rest, Stands file next)
    (htokens : (spliceLine line rest).1 = .ok tokens) (hpiece : piece <:+: tokens) :
    Stands file ⟨line.number, Token.render piece⟩

variable {held sources}

theorem Recorded.mono {more : List Source} (hmore : sources ⊆ more) {file : String}
    {lines : List SourceLine} (h : Recorded held sources file lines) :
    Recorded held more file lines := by
  induction h with
  | source h => exact .source (hmore h)
  | held h => exact .held h
  | declared _ hline hitem ih => exact .declared ih hline hitem
  | method _ hentry ih => exact .method ih hentry

/-! Capturing takes whole lines and pieces of lines. -/

namespace Body

variable {P : SourceLine → Prop} {name : String} {number depth : Nat} {tokens : List Token}
  {lines rest : List SourceLine} {captured : Captured}

/-- Lines for which all pieces are as good as the line itself. -/
def Sliceable (P : SourceLine → Prop) (line : SourceLine) : Prop :=
  P line ∧ ∀ piece, piece <:+: braceTokens line.text → piece ≠ [] →
    P ⟨line.number, Token.render piece⟩

theorem cutLine_all (h : tokens ≠ [] → P ⟨number, Token.render tokens⟩) :
    ∀ line ∈ cutLine number tokens, P line := by
  cases tokens with
  | nil => simp [cutLine]
  | cons token tokens =>
    simp only [cutLine, List.isEmpty_cons, Bool.false_eq_true, if_false, List.mem_singleton,
      forall_eq]
    exact h (List.cons_ne_nil token tokens)

theorem close_all {after : List Token} (hlines : ∀ line ∈ lines, P line)
    (hkept : tokens ≠ [] → P ⟨number, Token.render tokens⟩)
    (h : close lines number tokens after = .ok captured) : ∀ line ∈ captured.lines, P line := by
  cases after with
  | cons token after => cases h
  | nil =>
    cases h
    exact List.forall_mem_append.mpr ⟨hlines, cutLine_all hkept⟩

theorem captureLines_all (hlines : ∀ line ∈ lines, P line) (hrest : ∀ line ∈ rest, Sliceable P line)
    (h : (captureLines name depth lines rest).1 = .ok captured) :
    ∀ line ∈ captured.lines, P line := by
  induction rest generalizing depth lines with
  | nil => cases h
  | cons line rest ih =>
    obtain ⟨hline, hrest⟩ := List.forall_mem_cons.mp hrest
    unfold captureLines at h
    dsimp only at h
    split at h
    · exact close_all hlines (hline.2 _ (List.take_prefix _ _).isInfix) h
    · refine ih ?_ hrest h
      exact List.forall_mem_append.mpr ⟨hlines, List.forall_mem_singleton.mpr hline.1⟩

/-- The lines of a captured body come from the tokens behind the header or from the lines after it. -/
theorem capture_all
    (hhere : ∀ piece, piece <:+: tokens → piece ≠ [] → P ⟨number, Token.render piece⟩)
    (hrest : ∀ line ∈ rest, Sliceable P line)
    (h : (capture name number tokens rest).1 = .ok captured) : ∀ line ∈ captured.lines, P line := by
  have hbehind {token : Token} {others piece : List Token} (htokens : tokens = token :: others)
      (hpiece : piece <:+: others) : piece ≠ [] → P ⟨number, Token.render piece⟩ := by
    subst htokens
    exact hhere piece (hpiece.trans (List.suffix_cons token others).isInfix)
  unfold capture at h
  split at h
  · rename_i first others
    split at h
    · split at h
      · cases h
        exact cutLine_all (hbehind rfl (List.take_prefix _ _).isInfix)
      · exact captureLines_all (cutLine_all (hbehind rfl List.infix_rfl)) hrest h
    · cases h
  · rename_i opening rest
    obtain ⟨hopening, hrest⟩ := List.forall_mem_cons.mp hrest
    have hcut {piece : List Token} (hpiece : piece <:+: braceTokens opening.text) :=
      hopening.2 piece hpiece
    split at h
    · dsimp only at h
      split at h
      · refine close_all (List.forall_mem_nil _) (hcut ?_) h
        exact (List.tail_suffix _).isInfix.trans (List.take_prefix _ _).isInfix
      · exact captureLines_all (cutLine_all (hcut (List.tail_suffix _).isInfix)) hrest h
    · cases h
  · cases h

end Body

/-- What is behind the first token and some more. -/
theorem infix_behind {token : Token} {tokens piece : List Token} (n : Nat)
    (h : piece <:+: tokens.drop n) : piece <:+: token :: tokens :=
  h.trans ((List.drop_suffix n tokens).trans (List.suffix_cons token tokens)).isInfix

section

variable {P : SourceLine → Prop} {number : Nat} {tokens : List Token} {rest : List SourceLine}

/-- The bodies declared on a logical line come from it and from the lines after it. -/
theorem Item.ofTokens_all
    (hhere : ∀ piece, piece <:+: tokens → piece ≠ [] → P ⟨number, Token.render piece⟩)
    (hrest : ∀ line ∈ rest, Body.Sliceable P line) {header : Header} {body : List SourceLine}
    (h : .declaration header (.ok body) ∈ (ofTokens number tokens rest).1) :
    ∀ line ∈ body, P line := by
  fun_induction ofTokens number tokens rest with
  | case1 rest => cases h
  | case2 rest token tokens hclause ih =>
    exact ih (fun piece hpiece => hhere piece (infix_behind 0 hpiece)) hrest h
  | case3 rest token tokens clause n hclause item hitem items left hread ih =>
    rw [hread] at ih
    rcases List.mem_cons.mp h with heq | h
    · exact absurd heq.symm (Program.ofClause_undeclared hitem header (.ok body))
    · exact ih (fun piece hpiece => hhere piece (infix_behind n hpiece)) hrest h
  | case4 rest token tokens clause n hclause other hheader e left hcapture =>
    cases List.mem_singleton.mp h
  | case5 rest token tokens clause n hclause other hheader captured left hcapture =>
    cases List.mem_singleton.mp h
    exact Body.capture_all (fun piece hpiece => hhere piece (infix_behind n hpiece)) hrest
      (congrArg Prod.fst hcapture)
  | case6 rest token tokens clause n hclause other hheader captured last left hcapture items left'
      hread ih =>
    have hbehind : ∀ piece, piece <:+: tokens.drop n → piece ≠ [] → P ⟨number, Token.render piece⟩ :=
      fun piece hpiece => hhere piece (infix_behind n hpiece)
    have htaken := Body.capture_suffix other.name number (tokens.drop n) rest
    rw [hcapture] at htaken
    rw [hread] at ih
    rcases List.mem_cons.mp h with heq | h
    · cases heq
      exact Body.capture_all hbehind hrest (congrArg Prod.fst hcapture)
    · refine ih (fun piece hpiece => ?_) (fun line hline => hrest line (htaken.subset hline)) h
      exact hbehind piece (hpiece.trans (List.drop_suffix last _).isInfix)

/-- So do the bodies of methods. -/
theorem ClassEntry.ofTokens_all
    (hhere : ∀ piece, piece <:+: tokens → piece ≠ [] → P ⟨number, Token.render piece⟩)
    (hrest : ∀ line ∈ rest, Body.Sliceable P line) {place : Nat} {signature : Signature}
    {body : List SourceLine}
    (h : ⟨place, .ok (.method signature body)⟩ ∈ (ofTokens number tokens rest).1) :
    ∀ line ∈ body, P line := by
  fun_induction ofTokens number tokens rest with
  | case1 rest => cases h
  | case2 rest token tokens hread ih =>
    exact ih (fun piece hpiece => hhere piece (infix_behind 0 hpiece)) hrest h
  | case3 rest token tokens statement n hread e hparse => cases List.mem_singleton.mp h
  | case4 rest token tokens statement n hread type name hparse entries left hrest' ih =>
    rw [hrest'] at ih
    rcases List.mem_cons.mp h with heq | h
    · cases heq
    · exact ih (fun piece hpiece => hhere piece (infix_behind n hpiece)) hrest h
  | case5 rest token tokens statement n hread other hparse e left hcapture =>
    cases List.mem_singleton.mp h
  | case6 rest token tokens statement n hread other hparse captured left hcapture =>
    cases List.mem_singleton.mp h
    exact Body.capture_all (fun piece hpiece => hhere piece (infix_behind n hpiece)) hrest
      (congrArg Prod.fst hcapture)
  | case7 rest token tokens statement n hread other hparse captured last left hcapture entries left'
      hread' ih =>
    have hbehind : ∀ piece, piece <:+: tokens.drop n → piece ≠ [] → P ⟨number, Token.render piece⟩ :=
      fun piece hpiece => hhere piece (infix_behind n hpiece)
    have htaken := Body.capture_suffix other.name number (tokens.drop n) rest
    rw [hcapture] at htaken
    rw [hread'] at ih
    rcases List.mem_cons.mp h with heq | h
    · cases heq
      exact Body.capture_all hbehind hrest (congrArg Prod.fst hcapture)
    · refine ih (fun piece hpiece => ?_) (fun line hline => hrest line (htaken.subset hline)) h
      exact hbehind piece (hpiece.trans (List.drop_suffix last _).isInfix)
  | case8 rest token tokens statement n hread parsed hfield hmethod hparse =>
    cases List.mem_singleton.mp h
  | case9 rest token tokens clause n hclause hread entries left hrest' ih =>
    rw [hrest'] at ih
    rcases List.mem_cons.mp h with heq | h
    · cases heq
    · exact ih (fun piece hpiece => hhere piece (infix_behind n hpiece)) hrest h

end

namespace Stands

variable {file : String} {lines : List SourceLine}

/-- A piece of a single physical line stands there. -/
theorem sliceable {line : SourceLine} (h : Stands held sources file line) :
    Body.Sliceable (Stands held sources file) line := by
  refine ⟨h, fun piece hpiece hne => ?_⟩
  unfold Body.braceTokens at hpiece
  cases hlex : Lexed.ofLine line.text with
  | error e =>
    rw [hlex] at hpiece
    exact absurd (List.infix_nil.mp hpiece) hne
  | ok lexed =>
    rw [hlex] at hpiece
    have htokens : (spliceLine line []).1 = .ok lexed.tokens := by simp [spliceLine, hlex]
    exact .piece h (List.forall_mem_nil _) htokens hpiece

/-- The pieces of a logical line stand where it does. -/
theorem pieces {line : SourceLine} {rest : List SourceLine} {tokens : List Token}
    (hlines : ∀ next ∈ line :: rest, Stands held sources file next)
    (htokens : (spliceLine line rest).1 = .ok tokens) :
    ∀ piece, piece <:+: tokens → piece ≠ [] →
      Stands held sources file ⟨line.number, Token.render piece⟩ := by
  obtain ⟨hline, hrest⟩ := List.forall_mem_cons.mp hlines
  exact fun piece hpiece _ => .piece hline hrest htokens hpiece

theorem declared (hlines : ∀ line ∈ lines, Stands held sources file line) {number : Nat}
    {items : List Item} {header : Header} {body : List SourceLine}
    (hline : ⟨number, .ok items⟩ ∈ Script.ofLines lines)
    (hitem : .declaration header (.ok body) ∈ items) :
    ∀ line ∈ body, Stands held sources file line := by
  obtain ⟨first, rest, hbegins, hread⟩ := Script.ofLines_mem hline
  have hhere : ∀ line ∈ first :: rest, Stands held sources file line :=
    fun line hmem => hlines line (hbegins.suffix.subset hmem)
  unfold Script.readLine at hread
  dsimp only at hread
  cases htokens : (spliceLine first rest).1 with
  | error e =>
    rw [htokens] at hread
    cases hread
  | ok tokens =>
    rw [htokens] at hread
    cases hread
    refine Item.ofTokens_all (pieces hhere htokens) (fun line hmem => ?_) hitem
    exact (hhere line (List.mem_cons_of_mem _ ((spliceLine_suffix first rest).subset hmem))).sliceable

theorem method (hlines : ∀ line ∈ lines, Stands held sources file line) {number : Nat}
    {signature : Signature} {body : List SourceLine}
    (hentry : ⟨number, .ok (.method signature body)⟩ ∈ ClassEntry.ofLines lines) :
    ∀ line ∈ body, Stands held sources file line := by
  obtain ⟨first, rest, hsuffix, hread⟩ := ClassEntry.ofLines_mem hentry
  have hhere : ∀ line ∈ first :: rest, Stands held sources file line :=
    fun line hmem => hlines line (hsuffix.subset hmem)
  unfold ClassEntry.readLine at hread
  have hspliced := spliceLine_suffix first rest
  split at hread
  · cases List.mem_singleton.mp hread
  · rename_i tokens later hline
    rw [hline] at hspliced
    refine ClassEntry.ofTokens_all (pieces hhere (congrArg Prod.fst hline)) (fun line hmem => ?_) hread
    exact (hhere line (List.mem_cons_of_mem _ (hspliced.subset hmem))).sliceable

end Stands

/-- Every line of a recorded body stands in the file the body belongs to. -/
theorem Recorded.stands {file : String} {lines : List SourceLine}
    (h : Recorded held sources file lines) : ∀ line ∈ lines, Stands held sources file line := by
  induction h with
  | source h => exact fun line hline => .source h hline
  | held h => exact fun line hline => .held h hline
  | declared _ hline hitem ih => exact Stands.declared ih hline hitem
  | method _ hentry ih => exact Stands.method ih hentry

/-- A logical line is numbered as the physical line it begins with. -/
theorem Script.number_mem (lines : List SourceLine) :
    ∀ line ∈ ofLines lines, ∃ first ∈ lines, line.number = first.number := by
  intro line hline
  obtain ⟨first, rest, hbegins, rfl⟩ := ofLines_mem hline
  exact ⟨first, hbegins.suffix.subset List.mem_cons_self, readLine_number first rest⟩

end BuildScript
