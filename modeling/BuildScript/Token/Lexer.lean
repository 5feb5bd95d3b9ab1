import BuildScript.Token.Lexeme

/-!
The tokens of one line. Lexemes become tokens once their neighbours are known: a point glued to the
word after it is member access, or names a member of the receiver when white space precedes it; a
minus that is no subtraction joins the one magnitude only a negative integer can have; and three
points at the end say that the line goes on.
-/

namespace BuildScript

/-- The tokens of a physical line, without the continuation marker. -/
structure Lexed where
  tokens : List Token
  /-- The line continues on the next physical line. -/
  continuation : Bool
  deriving Inhabited

namespace Lexed

def wordKind (word : String) : TokenKind :=
  if word == "true" then .literal (.bool true)
  else if word == "false" then .literal (.bool false)
  else
    match Keyword.ofWord? word with
    | some keyword => .keyword keyword
    | none => .identifier word

/-- Whether a minus after the token `before` is a sign. It subtracts only after an operand. -/
def signAfter (before : Option Token) : Bool :=
  match before with
  | none => true
  | some token =>
    match token.kind with
    | .operator _ | .keyword _ => true
    | .separator separator => separator != .parenClose && separator != .bracketClose
    | .literal _ | .identifier _ | .ownMember _ => false

/-- Appends an integer to the tokens read so far, last first. -/
def pushMagnitude (done : List Token) (value : Nat) (text : String) (spaced : Bool) :
    Except SyntaxError (List Token) :=
  if value < Lexeme.largestMagnitude then
    .ok (⟨.literal (.int (Int32.ofNat value)), text, spaced⟩ :: done)
  else
    match done with
    | ⟨.operator .subtract, _, minusSpaced⟩ :: before =>
      if signAfter before.head? then
        .ok (⟨.literal (.int Int32.minValue), "-" ++ text, minusSpaced⟩ :: before)
      else .error (.integerOutOfRange text)
    | _ => .error (.integerOutOfRange text)

/-- Turns lexemes into tokens; `done` holds the tokens before them, last first. -/
def ofLexemes (done : List Token) : List Lexeme → Except SyntaxError Lexed
  | [] => .ok ⟨done.reverse, false⟩
  | ⟨.ellipsis, _, _⟩ :: rest =>
    if rest.isEmpty then .ok ⟨done.reverse, true⟩ else .error .misplacedContinuation
  | ⟨.twoDots, _, _⟩ :: _ => .error .strayDot
  | ⟨.dot, text, spaced⟩ :: ⟨.word, word, false⟩ :: rest =>
    if spaced then ofLexemes (⟨.ownMember word, text ++ word, true⟩ :: done) rest
    else
      ofLexemes (⟨wordKind word, word, false⟩ :: ⟨.operator .member, text, false⟩ :: done) rest
  | ⟨.dot, _, _⟩ :: _ => .error .strayDot
  | ⟨.magnitude value, text, spaced⟩ :: rest =>
    match pushMagnitude done value text spaced with
    | .error e => .error e
    | .ok done => ofLexemes done rest
  | ⟨.word, text, spaced⟩ :: rest => ofLexemes (⟨wordKind text, text, spaced⟩ :: done) rest
  | ⟨.quoted value, text, spaced⟩ :: rest =>
    ofLexemes (⟨.literal (.string value), text, spaced⟩ :: done) rest
  | ⟨.single value, text, spaced⟩ :: rest =>
    ofLexemes (⟨.literal (.float value), text, spaced⟩ :: done) rest
  | ⟨.operator op, text, spaced⟩ :: rest => ofLexemes (⟨.operator op, text, spaced⟩ :: done) rest
  | ⟨.separator separator, text, spaced⟩ :: rest =>
    ofLexemes (⟨.separator separator, text, spaced⟩ :: done) rest

def ofChars (line : List Char) : Except SyntaxError Lexed :=
  match Lexeme.scan true line with
  | .error e => .error e
  | .ok lexemes => ofLexemes [] lexemes

/-- Reads one line. -/
def ofLine (line : String) : Except SyntaxError Lexed := ofChars line.toList

end Lexed

end BuildScript
