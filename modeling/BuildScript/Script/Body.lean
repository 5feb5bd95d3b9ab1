import BuildScript.Text.Blank
import BuildScript.Text.SourceLine
import BuildScript.Token.Lexer

/-!
Logical lines and captured bodies. A logical line is a physical line with the ones it continues on.
The body of a declaration opens right after the header, on its line or at the start of the next, and
ends at the brace that balances it; its lines are kept as written, except that the first and the
last are cut at their braces.
-/

namespace BuildScript

open Text (SourceLine)

/-- The tokens of a line spliced with its continuations, and the lines after them. A line that does
not lex ends the logical line. -/
def spliceLine (line : SourceLine) (rest : List SourceLine) :
    Except SyntaxError (List Token) × List SourceLine :=
  match Lexed.ofLine line.text, rest with
  | .error e, rest => (.error e, rest)
  | .ok lexed, [] => (.ok lexed.tokens, [])
  | .ok lexed, next :: rest =>
    if lexed.continuation then
      let spliced := spliceLine next rest
      (spliced.1.map (lexed.tokens ++ ·), spliced.2)
    else (.ok lexed.tokens, next :: rest)

theorem length_spliceLine_le (line : SourceLine) (rest : List SourceLine) :
    (spliceLine line rest).2.length ≤ rest.length := by
  induction rest generalizing line with
  | nil => unfold spliceLine; split <;> simp_all
  | cons next rest ih =>
    unfold spliceLine
    split
    · simp
    · contradiction
    · rename_i heq
      cases heq
      split
      · exact Nat.le_succ_of_le (ih _)
      · exact Nat.le_refl _

namespace Body

/-- The state of the braces after some tokens: the nesting, or the place of the brace that
closes. -/
inductive Balance where
  | nested (depth : Nat)
  | closedAt (index : Nat)
  deriving DecidableEq

/-- Counts braces until none is open. A closing brace closes even when none was opened. -/
def balance (depth : Nat) : List Token → Balance
  | [] => .nested depth
  | token :: rest =>
    let later (depth : Nat) : Balance :=
      match balance depth rest with
      | .nested depth => .nested depth
      | .closedAt index => .closedAt (index + 1)
    if token.isSeparator .braceOpen then later (depth + 1)
    else if token.isSeparator .braceClose then
      if depth ≤ 1 then .closedAt 0 else later (depth - 1)
    else later depth

/-- The tokens of a body line as far as its braces count. A line that does not lex has none. -/
def braceTokens (text : String) : List Token :=
  match Lexed.ofLine text with
  | .ok lexed => lexed.tokens
  | .error _ => []

/-- A cut line. Nothing is kept of an empty one. -/
def cutLine (number : Nat) (tokens : List Token) : List SourceLine :=
  if tokens.isEmpty then [] else [⟨number, Token.render tokens⟩]

def opensWithBrace (line : SourceLine) : Bool :=
  (line.text.toList.dropWhile Text.isBlank).head? == some '{'

/-- A captured body, with the number of tokens up to its closing brace if that stands on the header
line. -/
structure Captured where
  lines : List SourceLine
  resume : Option Nat

/-- The body once its last line was cut; nothing may follow the closing brace there. -/
def close (lines : List SourceLine) (number : Nat) (kept after : List Token) :
    Except SyntaxError Captured :=
  match after with
  | token :: _ => .error (.trailingTokens token.text)
  | [] => .ok ⟨lines ++ cutLine number kept, none⟩

/-- Takes whole lines into the body until its braces balance. -/
def captureLines (name : String) (depth : Nat) (lines : List SourceLine) :
    List SourceLine → Except SyntaxError Captured × List SourceLine
  | [] => (.error (.unterminatedBody name), [])
  | line :: rest =>
    let tokens := braceTokens line.text
    match balance depth tokens with
    | .closedAt index =>
      (close lines line.number (tokens.take index) (tokens.drop (index + 1)), rest)
    | .nested depth => captureLines name depth (lines ++ [line]) rest

/-- Captures the body of a declaration. `tokens` follow the header on its line, the one with the
given number, and `rest` are the lines after it. Whatever was read is gone even if there is no
body. -/
def capture (name : String) (number : Nat) (tokens : List Token) (rest : List SourceLine) :
    Except SyntaxError Captured × List SourceLine :=
  match tokens, rest with
  | first :: others, rest =>
    if first.isSeparator .braceOpen then
      match balance 1 others with
      | .closedAt index =>
        (.ok ⟨cutLine number (others.take index), some (index + 2)⟩, rest)
      | .nested depth => captureLines name depth (cutLine number others) rest
    else (.error (.expectedBody name), rest)
  | [], opening :: rest =>
    if opensWithBrace opening then
      let tokens := braceTokens opening.text
      match balance 0 tokens with
      | .closedAt index =>
        (close [] opening.number (tokens.take index).tail (tokens.drop (index + 1)), rest)
      | .nested depth => captureLines name depth (cutLine opening.number tokens.tail) rest
    else (.error (.expectedBody name), opening :: rest)
  | [], [] => (.error (.expectedBody name), [])

theorem length_captureLines_le (name : String) (depth : Nat) (lines rest : List SourceLine) :
    (captureLines name depth lines rest).2.length ≤ rest.length := by
  induction rest generalizing depth lines with
  | nil => simp [captureLines]
  | cons line rest ih =>
    unfold captureLines
    dsimp only
    split
    · simp
    · exact Nat.le_succ_of_le (ih _ _)

theorem length_capture_le (name : String) (number : Nat) (tokens : List Token)
    (rest : List SourceLine) : (capture name number tokens rest).2.length ≤ rest.length := by
  unfold capture
  split
  · split
    · split
      · simp
      · exact length_captureLines_le ..
    · simp
  · split
    · dsimp only
      split
      · simp
      · exact Nat.le_succ_of_le (length_captureLines_le ..)
    · simp
  · simp

end Body

end BuildScript
