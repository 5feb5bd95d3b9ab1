import Mathlib
import BuildScript.Proofs.Body.Capture
import BuildScript.Proofs.Script.Splicing

/-!
Lines with others put between them that hold nothing: blanks, or a comment. Where none of them comes
right after a line that goes on, or between a header and the line with its brace, the same logical
lines are read and the same bodies are taken, again with such lines between theirs.
-/

namespace BuildScript

open Text (SourceLine)

/-- The line holds nothing but blanks and a comment. -/
def Text.SourceLine.isIdle (line : SourceLine) : Bool :=
  let rest := line.text.toList.dropWhile Lexeme.isGap
  rest.isEmpty || rest.take 2 == ['/', '/'] && !rest.contains '\n'

/-- The lines that hold something, without their numbers. -/
def bare (lines : List SourceLine) : List SourceLine :=
  (lines.filter (!·.isIdle)).map fun line => { line with number := 0 }

/-- The second lines are the first with idle ones put in: none right at the front if the lines are
`bound` to what stands before them, none after a line that goes on, and none before a line of the
first with a `shut` number. The numbers of the second lines are free. -/
inductive Spaced (shut : Nat → Prop) : Prop → List SourceLine → List SourceLine → Prop
  | nil {bound} : Spaced shut bound [] []
  | line {bound line rest rest'} (number) (hrest : Spaced shut line.GoesOn rest rest') :
    Spaced shut bound (line :: rest) (⟨number, line.text⟩ :: rest')
  | idle {bound line rest rest'} (hbound : ¬bound) (hidle : line.isIdle = true)
    (hshut : ∀ next ∈ rest.head?, ¬shut next.number) (hrest : Spaced shut bound rest rest') :
    Spaced shut bound rest (line :: rest')

variable {shut : Nat → Prop} {bound bound' : Prop} {line : SourceLine}
  {lines lines' rest rest' : List SourceLine} {tokens : List Token}

/-- Blanks and a comment make no lexemes. -/
theorem Lexeme.scan_idle {text : List Char} (spaced : Bool)
    (h : text.dropWhile isGap = [] ∨
      (text.dropWhile isGap).take 2 = ['/', '/'] ∧ '\n' ∉ text.dropWhile isGap) :
    scan spaced text = .ok [] := by
  induction text generalizing spaced with
  | nil => rw [scan]
  | cons c text ih =>
    rw [scan]
    by_cases hgap : isGap c = true
    · rw [if_pos hgap]
      rw [List.dropWhile_cons_of_pos hgap] at h
      exact ih true h
    · rw [if_neg hgap]
      rw [List.dropWhile_cons_of_neg hgap] at h
      rcases h with h | ⟨hslashes, hline⟩
      · cases h
      · cases text with
        | nil => cases hslashes
        | cons d text =>
          obtain ⟨rfl, hrest⟩ := List.cons.inj hslashes
          obtain ⟨rfl, -⟩ := List.cons.inj hrest
          have hdropped : ('/' :: text).dropWhile (· != '\n') = [] := by
            rw [List.dropWhile_eq_nil_iff]
            intro c hc
            have hne : c ≠ '\n' := fun heq => hline (heq ▸ List.mem_cons_of_mem _ hc)
            simpa using hne
          have hcomment : ('/' == '/' && ('/' :: text).head? == some '/') = true := rfl
          rw [if_pos hcomment, hdropped, scan]

namespace Text.SourceLine

theorem isIdle_iff : line.isIdle = true ↔ line.text.toList.dropWhile Lexeme.isGap = [] ∨
    (line.text.toList.dropWhile Lexeme.isGap).take 2 = ['/', '/'] ∧
      '\n' ∉ line.text.toList.dropWhile Lexeme.isGap := by
  simp [isIdle]

theorem ofLine_idle (h : line.isIdle = true) : Lexed.ofLine line.text = .ok ⟨[], false⟩ := by
  unfold Lexed.ofLine Lexed.ofChars
  rw [Lexeme.scan_idle true (isIdle_iff.mp h)]
  rfl

theorem not_goesOn_idle (h : line.isIdle = true) : ¬line.GoesOn := by
  rintro ⟨lexed, hlexed, hmark⟩
  cases (ofLine_idle h).symm.trans hlexed
  cases hmark

theorem not_opens_idle (h : line.isIdle = true) : Body.opensWithBrace line = false := by
  cases hopens : Body.opensWithBrace line with
  | false => rfl
  | true =>
    obtain ⟨opening, others, htokens, -⟩ := Body.opens_of_opensWithBrace hopens (ofLine_idle h)
    cases htokens

theorem spliceLine_idle (h : line.isIdle = true) (rest : List SourceLine) :
    spliceLine line rest = (.ok [], rest) := by
  rw [spliceLine_stops (not_goesOn_idle h), ofLine_idle h]
  rfl

end Text.SourceLine

namespace Spaced

/-- The same lines with other numbers. -/
theorem refl (shut : Nat → Prop) (bound : Prop) (lines : List SourceLine) :
    Spaced shut bound lines lines := by
  induction lines generalizing bound with
  | nil => exact .nil
  | cons line rest ih => exact .line line.number (ih _)

/-- Fewer places are bound. -/
theorem loosen (h : Spaced shut bound lines lines') (hbound : bound' → bound) :
    Spaced shut bound' lines lines' := by
  induction h with
  | nil => exact .nil
  | line number hrest _ => exact .line number hrest
  | idle hloose hidle hshut _ ih => exact .idle (fun h => hloose (hbound h)) hidle hshut (ih hbound)

theorem free (h : Spaced shut bound lines lines') : Spaced shut False lines lines' :=
  h.loosen False.elim

theorem bare_eq (h : Spaced shut bound lines lines') : bare lines = bare lines' := by
  unfold bare
  induction h with
  | nil => rfl
  | @line bound line rest rest' number _ ih =>
    have hsame : SourceLine.isIdle ⟨number, line.text⟩ = line.isIdle := rfl
    rw [List.filter_cons, List.filter_cons, hsame]
    split
    · rw [List.map_cons, List.map_cons, ih]
    · exact ih
  | idle _ hidle _ _ ih => rwa [List.filter_cons_of_neg (by simp [hidle])]

/-- A line that holds nothing does not open a body. -/
theorem unopened (h : Spaced shut bound lines lines') (hlines : Unopened lines) :
    Unopened lines' := by
  rintro _ hhead
  cases h with
  | nil => cases hhead
  | @line _ line =>
    cases hhead
    exact hlines line rfl
  | idle _ hidle =>
    cases hhead
    exact SourceLine.not_opens_idle hidle

/-- The logical line that begins with a physical one is the same. -/
theorem spliceLine_eq (h : Spaced shut line.GoesOn rest rest') (number : Nat) :
    (spliceLine ⟨number, line.text⟩ rest').1 = (spliceLine line rest).1 ∧
      Spaced shut False (spliceLine line rest).2 (spliceLine ⟨number, line.text⟩ rest').2 := by
  induction rest generalizing line rest' number with
  | nil =>
    have hrest : rest' = [] ∨ ¬line.GoesOn := by
      cases h with
      | nil => exact .inl rfl
      | idle hbound => exact .inr hbound
    rcases hrest with rfl | hbound
    · have hsame : spliceLine ⟨number, line.text⟩ [] = spliceLine line [] := by
        unfold spliceLine
        rfl
      rw [hsame]
      exact ⟨rfl, .refl ..⟩
    · rw [spliceLine_stops hbound, @spliceLine_stops ⟨number, line.text⟩ hbound]
      exact ⟨rfl, h.free⟩
  | cons next rest ih =>
    by_cases hgoes : line.GoesOn
    · obtain ⟨lexed, hlexed, hmark⟩ := hgoes
      cases h with
      | idle hbound => exact absurd ⟨lexed, hlexed, hmark⟩ hbound
      | @line _ _ _ rest' number' hrest =>
        obtain ⟨htokens, hleft⟩ := ih hrest number'
        rw [spliceLine_continued hlexed hmark,
          @spliceLine_continued ⟨number, line.text⟩ _ _ hlexed hmark, htokens]
        exact ⟨rfl, hleft⟩
    · rw [spliceLine_stops hgoes, @spliceLine_stops ⟨number, line.text⟩ hgoes]
      exact ⟨rfl, h.free⟩

end Spaced

/-! Bodies. -/

/-- The tokens stand at the end of a line. -/
def Lexed.EndsWritten (tokens : List Token) : Prop := ∃ front, Written (front ++ tokens)

namespace Lexed

theorem Written.nil : Written [] := ⟨[], .nil, trivial⟩

/-- What written tokens are rendered to does not go on. -/
theorem Written.stops (h : Written tokens) (number : Nat) :
    ¬SourceLine.GoesOn ⟨number, Token.render tokens⟩ := by
  rintro ⟨lexed, hlexed, hmark⟩
  rw [(h.not_continued hlexed).1] at hmark
  cases hmark

theorem EndsWritten.suffix {others : List Token} (h : EndsWritten tokens) (hothers : others <:+ tokens) :
    EndsWritten others := by
  obtain ⟨front, hwritten⟩ := h
  obtain ⟨before, rfl⟩ := hothers
  exact ⟨front ++ before, by rwa [List.append_assoc]⟩

/-- Behind a brace tokens are written by themselves. -/
theorem EndsWritten.behind {opening : Token} (h : EndsWritten (opening :: tokens))
    (hopen : opening.isSeparator .braceOpen = true) : Written tokens := by
  obtain ⟨front, hwritten⟩ := h
  exact (hwritten.split (.of_isSeparator hopen)).2

end Lexed

namespace Body

/-- Lines put in front of a body. -/
def Captured.behind (kept : List SourceLine) (captured : Captured) : Captured :=
  { captured with lines := kept ++ captured.lines }

/-- What was kept before stands in front of what is taken. -/
theorem captureLines_kept (name : String) (depth : Nat) (kept lines : List SourceLine) :
    captureLines name depth kept lines = ((captureLines name depth [] lines).1.map (·.behind kept),
      (captureLines name depth [] lines).2) := by
  induction lines generalizing depth kept with
  | nil => rfl
  | cons line rest ih =>
    unfold captureLines
    dsimp only
    cases balance depth (braceTokens line.text) with
    | closedAt index =>
      dsimp only
      generalize (braceTokens line.text).drop (index + 1) = after
      cases after <;> rfl
    | nested depth' =>
      dsimp only
      rw [ih depth' (kept ++ [line]), ih depth' ([] ++ [line])]
      cases (captureLines name depth' [] rest).1 with
      | error e => rfl
      | ok captured => simp [Except.map, Captured.behind]

/-- One line is taken. -/
theorem captureLines_cons (name : String) (depth : Nat) (line : SourceLine)
    (rest : List SourceLine) : captureLines name depth [] (line :: rest) =
      match balance depth (braceTokens line.text) with
      | .closedAt index => (close [] line.number ((braceTokens line.text).take index)
          ((braceTokens line.text).drop (index + 1)), rest)
      | .nested depth => ((captureLines name depth [] rest).1.map (·.behind [line]),
          (captureLines name depth [] rest).2) := by
  conv_lhs => unfold captureLines
  dsimp only
  cases balance depth (braceTokens line.text) with
  | closedAt index => rfl
  | nested depth' => exact captureLines_kept name depth' [line] rest

/-- The first line of what is taken has the number of the first line there is. -/
theorem captureLines_first {name : String} {depth : Nat} {captured : Captured}
    (h : captureLines name depth [] lines = (.ok captured, rest)) :
    ∀ first ∈ captured.lines.head?, ∃ next ∈ lines.head?, next.number = first.number := by
  obtain ⟨middle, last, index, rfl, -, hlines⟩ := captureLines_eq_ok h
  rw [hlines]
  cases middle with
  | cons line middle => exact fun first hfirst => ⟨first, hfirst, rfl⟩
  | nil =>
    intro first hfirst
    refine ⟨last, rfl, ?_⟩
    unfold cutLine at hfirst
    split at hfirst
    · cases hfirst
    · cases hfirst
      rfl

/-- The same is taken for a body, but for lines that hold nothing. -/
inductive Taken (shut : Nat → Prop) (bound : Prop) :
    Except SyntaxError Captured × List SourceLine →
      Except SyntaxError Captured × List SourceLine → Prop
  | error (e) {left left'} (hleft : Spaced shut False left left') :
    Taken shut bound (.error e, left) (.error e, left')
  | ok {body body'} (resume) {left left'} (hbody : Spaced shut bound body body')
    (hleft : Spaced shut False left left') :
    Taken shut bound (.ok ⟨body, resume⟩, left) (.ok ⟨body', resume⟩, left')

theorem close_taken (number number' : Nat) (tokens after : List Token)
    (h : Spaced shut False rest rest') :
    Taken shut bound (close [] number tokens after, rest)
      (close [] number' tokens after, rest') := by
  cases after with
  | cons token after => exact .error _ h
  | nil =>
    refine .ok none ?_ h
    unfold cutLine
    split
    · exact .nil
    · exact .line number' .nil

/-- As many lines are taken as there are up to the one on which the body ends. -/
theorem captureLines_taken (h : Spaced shut bound lines lines') (name : String) (depth : Nat) :
    Taken shut bound (captureLines name depth [] lines) (captureLines name depth [] lines') := by
  induction h generalizing depth with
  | nil => exact .error _ .nil
  | @line bound line rest rest' number hrest ih =>
    rw [captureLines_cons, captureLines_cons]
    dsimp only
    cases balance depth (braceTokens line.text) with
    | closedAt index => exact close_taken _ _ _ _ hrest.free
    | nested depth' =>
      dsimp only
      specialize ih depth'
      generalize captureLines name depth' [] rest = taken at ih
      generalize captureLines name depth' [] rest' = taken' at ih
      cases ih with
      | error e hleft => exact .error e hleft
      | ok resume hbody hleft => exact .ok resume (.line number hbody) hleft
  | @idle bound line rest rest' hbound hidle hshut hrest ih =>
    have hnone : braceTokens line.text = [] := by
      rw [braceTokens, SourceLine.ofLine_idle hidle]
    rw [captureLines_cons, hnone]
    dsimp only [balance]
    specialize ih depth
    generalize htaken : captureLines name depth [] rest = taken at ih
    generalize captureLines name depth [] rest' = taken' at ih
    cases ih with
    | error e hleft => exact .error e hleft
    | ok resume hbody hleft =>
      refine .ok resume (.idle hbound hidle (fun first hfirst => ?_) hbody) hleft
      obtain ⟨next, hnext, hnumber⟩ := captureLines_first htaken first hfirst
      exact hnumber ▸ hshut next hnext

/-- What is kept of the first line does not go on. -/
theorem cutLine_spaced (h : Spaced shut bound rest rest') (hwritten : Lexed.Written tokens)
    (number number' : Nat) :
    Spaced shut False (cutLine number tokens ++ rest) (cutLine number' tokens ++ rest') := by
  unfold cutLine
  split
  · exact h.free
  · exact .line number' (h.loosen fun hgoes => absurd hgoes (hwritten.stops number))

/-- The lines after the brace. -/
theorem captureLines_behind (h : Spaced shut bound rest rest') (hwritten : Lexed.Written tokens)
    (name : String) (depth number number' : Nat) :
    Taken shut False (captureLines name depth (cutLine number tokens) rest)
      (captureLines name depth (cutLine number' tokens) rest') := by
  have htaken := captureLines_taken h name depth
  rw [captureLines_kept name depth _ rest, captureLines_kept name depth _ rest']
  generalize captureLines name depth [] rest = taken at htaken
  generalize captureLines name depth [] rest' = taken' at htaken
  cases htaken with
  | error e hleft => exact .error e hleft
  | ok resume hbody hleft => exact .ok resume (cutLine_spaced hbody hwritten number number') hleft

/-- A brace at the front of a line: what stands behind it there is written. -/
theorem written_behind_brace (hopens : opensWithBrace line = true) :
    Lexed.Written (braceTokens line.text).tail := by
  unfold braceTokens
  split
  · rename_i lexed hlexed
    obtain ⟨opening, others, htokens, hopen⟩ := opens_of_opensWithBrace hopens hlexed
    obtain ⟨⟨lexemes, hcomposed, hspelled, -⟩, -⟩ := Lexed.written_of_ofLine hlexed
    have hends : Lexed.EndsWritten (opening :: others) :=
      ⟨[], lexemes, htokens ▸ hcomposed, hspelled⟩
    rw [htokens]
    exact hends.behind hopen
  · exact .nil

/-- Lines that a declaration may take for its body begin with a brace. -/
theorem opens_of_unopened (h : ¬Unopened rest) :
    ∃ opening left, rest = opening :: left ∧ opensWithBrace opening = true := by
  obtain ⟨opening, hhead, hopens⟩ : ∃ opening ∈ rest.head?, opensWithBrace opening = true := by
    simpa [Unopened] using h
  obtain ⟨left, rfl⟩ := List.head?_eq_some_iff.mp hhead
  exact ⟨opening, left, rfl, hopens⟩

/-- The same body is captured, but for lines that hold nothing: none of these comes before a line
with the brace. -/
theorem capture_taken (h : Spaced shut bound rest rest') (hwritten : Lexed.EndsWritten tokens)
    (hshut : tokens = [] → ∀ opening ∈ rest.head?, opensWithBrace opening = true →
      shut opening.number) (name : String) (number number' : Nat) :
    Taken shut False (capture name number tokens rest) (capture name number' tokens rest') := by
  cases tokens with
  | cons first others =>
    unfold capture
    dsimp only
    split
    · rename_i hopen
      cases balance 1 others with
      | closedAt index =>
        refine .ok _ ?_ h.free
        unfold cutLine
        split
        · exact .nil
        · exact .line number' .nil
      | nested depth => exact captureLines_behind h (hwritten.behind hopen) name depth _ _
    · exact .error _ h.free
  | nil =>
    by_cases hunopened : Unopened rest
    · rw [capture_unopened hunopened, capture_unopened (h.unopened hunopened)]
      exact .error _ h.free
    · obtain ⟨opening, left, rfl, hopens⟩ := opens_of_unopened hunopened
      cases h with
      | idle _ _ hnext => exact absurd (hshut rfl opening rfl hopens) (hnext opening rfl)
      | @line _ _ _ rest' number'' hrest =>
        have hopens' : opensWithBrace ⟨number'', opening.text⟩ = true := hopens
        rw [capture_opened hopens, capture_opened hopens']
        unfold openedBy
        dsimp only
        cases balance 0 (braceTokens opening.text) with
        | closedAt index => exact close_taken _ _ _ _ hrest.free
        | nested depth => exact captureLines_behind hrest (written_behind_brace hopens) name depth _ _

end Body

end BuildScript
