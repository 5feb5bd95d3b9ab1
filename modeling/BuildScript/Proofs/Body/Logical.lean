import Mathlib
import BuildScript.Script.Body

/-!
Logical lines. A line that ends with the mark is joined with what the lines after it begin with; a
line that does not lex stands for itself. What a text means is the sequence of its logical lines,
empty ones aside, each as the kinds and texts of its tokens.
-/

namespace BuildScript

open Text (SourceLine)

/-- A physical line as it is lexed. -/
abbrev LexedLine := Except SyntaxError Lexed

abbrev LogicalLine := Except SyntaxError (List Token)

def Text.SourceLine.lexed (line : SourceLine) : LexedLine := Lexed.ofLine line.text

/-- The logical lines of a text, spliced one after the other. -/
def logicalLines : List SourceLine → List LogicalLine
  | [] => []
  | line :: rest => (spliceLine line rest).1 :: logicalLines (spliceLine line rest).2
termination_by lines => lines.length
decreasing_by exact Nat.lt_succ_of_le (length_spliceLine_le line rest)

/-- The logical lines of lexed lines. -/
def joined : List LexedLine → List LogicalLine
  | [] => []
  | .error e :: rest => .error e :: joined rest
  | .ok lexed :: rest =>
    match lexed.continuation, joined rest with
    | true, next :: others => next.map (lexed.tokens ++ ·) :: others
    | _, others => .ok lexed.tokens :: others

theorem joined_splice (line : SourceLine) (rest : List SourceLine) :
    joined (line.lexed :: rest.map SourceLine.lexed) =
      (spliceLine line rest).1 :: joined ((spliceLine line rest).2.map SourceLine.lexed) := by
  induction rest generalizing line with
  | nil =>
    unfold spliceLine SourceLine.lexed
    cases Lexed.ofLine line.text with
    | error e => rfl
    | ok lexed =>
      rw [List.map_nil, joined, joined]
      cases lexed.continuation <;> rfl
  | cons next rest ih =>
    unfold spliceLine
    rw [SourceLine.lexed]
    cases Lexed.ofLine line.text with
    | error e => rfl
    | ok lexed =>
      rw [List.map_cons, joined]
      dsimp only
      cases lexed.continuation with
      | false => rfl
      | true => rw [ih, if_pos rfl]

theorem logicalLines_eq (lines : List SourceLine) :
    logicalLines lines = joined (lines.map SourceLine.lexed) := by
  fun_induction logicalLines lines with
  | case1 => rfl
  | case2 line rest ih => rw [List.map_cons, joined_splice, ih]

/-- What a line says: the kinds and texts of its tokens, or why there are none. -/
abbrev LineContent := Except SyntaxError (List (TokenKind × String))

def LogicalLine.content (line : LogicalLine) : LineContent :=
  line.map (List.map fun token => (token.kind, token.text))

def LineContent.isEmpty : LineContent → Bool
  | .ok tokens => tokens.isEmpty
  | .error _ => false

/-- What logical lines say, empty ones aside. -/
def meaning (lines : List LogicalLine) : List LineContent :=
  (lines.map LogicalLine.content).filter (!LineContent.isEmpty ·)

/-- The lines say the same one by one, but for an empty one at the end. -/
inductive Similar : List LogicalLine → List LogicalLine → Prop
  | nil : Similar [] []
  | empty : Similar [] [.ok []]
  | cons {line line' lines lines'} (hline : line.content = line'.content)
    (hlines : Similar lines lines') : Similar (line :: lines) (line' :: lines')

variable {line line' : LogicalLine} {lines lines' : List LogicalLine} {rest rest' : List LexedLine}
  {tokens : List Token}

theorem meaning_cons_congr (h : line.content = line'.content)
    (hlines : meaning lines = meaning lines') :
    meaning (line :: lines) = meaning (line' :: lines') := by
  rw [meaning, meaning, List.map_cons, List.map_cons, List.filter_cons, List.filter_cons, h]
  exact ite_congr rfl (fun _ => congrArg _ hlines) fun _ => hlines

theorem meaning_error (e : SyntaxError) : meaning (.error e :: lines) = .error e :: meaning lines :=
  rfl

theorem meaning_ok (h : tokens ≠ []) :
    meaning (.ok tokens :: lines) = LogicalLine.content (.ok tokens) :: meaning lines := by
  obtain ⟨token, rest, rfl⟩ := List.exists_cons_of_ne_nil h
  rfl

theorem LogicalLine.content_append (h : line.content = line'.content) (before : List Token) :
    content (line.map (before ++ ·)) = content (line'.map (before ++ ·)) := by
  cases line <;> cases line' <;> simp_all [content, Except.map]

theorem Similar.meaning_eq (h : Similar lines lines') : meaning lines = meaning lines' := by
  induction h with
  | nil | empty => rfl
  | cons hline hlines ih => exact meaning_cons_congr hline ih

theorem Similar.joined_cons (h : Similar (joined rest) (joined rest')) (first : LexedLine) :
    Similar (joined (first :: rest)) (joined (first :: rest')) := by
  cases first with
  | error e => exact .cons rfl h
  | ok lexed =>
    rw [joined, joined]
    cases lexed.continuation with
    | false => exact .cons rfl h
    | true =>
      generalize joined rest = lines at h
      generalize joined rest' = lines' at h
      cases h with
      | nil => exact .cons rfl .nil
      | empty =>
        refine .cons ?_ .nil
        simp [LogicalLine.content, Except.map]
      | cons hline hlines => exact .cons (LogicalLine.content_append hline _) hlines

theorem Similar.joined_append (h : Similar (joined rest) (joined rest')) (front : List LexedLine) :
    Similar (joined (front ++ rest)) (joined (front ++ rest')) := by
  induction front with
  | nil => exact h
  | cons first front ih => exact ih.joined_cons first

end BuildScript
