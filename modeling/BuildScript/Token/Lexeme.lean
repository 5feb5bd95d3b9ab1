import BuildScript.Number.Single
import BuildScript.SyntaxError
import BuildScript.Text.Escape
import BuildScript.Token.Basic

/-!
Lexemes: the longest pieces of a line that can start a token, read without regard to what stands
around them. White space and comments separate lexemes and are dropped. The first piece that is no
lexeme is the error of the whole line.
-/

namespace BuildScript

inductive LexemeKind where
  | quoted (value : String)
  | single (value : Float32)
  /-- An integer without sign, up to and including `2 ^ 31`. -/
  | magnitude (value : Nat)
  | word
  | ellipsis
  | twoDots
  | dot
  | operator (op : Operator)
  | separator (separator : Separator)

structure Lexeme where
  kind : LexemeKind
  text : String
  spaced : Bool

namespace Lexeme

def isGap (c : Char) : Bool :=
  c == ' ' || c == '\t' || c == '\r' || c == '\x0c' || c == '\x0b'

def isWordStart (c : Char) : Bool := c.isAlpha || c == '_'

def isWordChar (c : Char) : Bool := c.isAlphanum || c == '_'

/-- The largest magnitude an integer literal may have: only a sign makes it an integer. -/
def largestMagnitude : Nat := 0x80000000

def digitsToNat (digits : List Char) : Nat :=
  digits.foldl (fun n c => 10 * n + (c.toNat - '0'.toNat)) 0

/-- The number of characters before the first quote that no backslash escapes. -/
def quotedLength? : List Char → Option Nat
  | [] => none
  | '"' :: _ => some 0
  | '\\' :: _ :: rest => (quotedLength? rest).map (· + 2)
  | _ :: rest => (quotedLength? rest).map (· + 1)

/-- The lexeme that an opening quote begins, with the number of further characters it takes. -/
def readQuoted (rest : List Char) : Except SyntaxError (LexemeKind × Nat) :=
  match quotedLength? rest with
  | none => .error .unterminatedString
  | some n =>
    match Text.unescapeChars (rest.take n) with
    | .error escape => .error (.unknownEscape escape)
    | .ok value => .ok (.quoted (String.ofList value), n + 1)

/-- A number that begins with digits. A point makes it a fraction, and a second point after
further digits makes it malformed. -/
def readNumber (c : Char) (rest : List Char) : Except SyntaxError (LexemeKind × Nat) :=
  let whole := c :: rest.takeWhile Char.isDigit
  match rest.dropWhile Char.isDigit with
  | '.' :: more =>
    let fraction := more.takeWhile Char.isDigit
    match more.dropWhile Char.isDigit with
    | '.' :: tail =>
      if fraction.isEmpty then
        .ok (.single (Single.ofDecimal (digitsToNat whole) 0), whole.length)
      else
        let surplus := tail.takeWhile fun d => d.isDigit || d == '.'
        .error (.malformedNumber
          (String.ofList (whole ++ '.' :: fraction ++ '.' :: surplus)))
    | _ =>
      .ok (.single (Single.ofDecimal (digitsToNat (whole ++ fraction)) fraction.length),
        whole.length + fraction.length)
  | _ =>
    let value := digitsToNat whole
    if value ≤ largestMagnitude then .ok (.magnitude value, whole.length - 1)
    else .error (.integerOutOfRange (String.ofList whole))

/-- What a point begins. -/
def readDot : List Char → LexemeKind × Nat
  | '.' :: '.' :: _ => (.ellipsis, 2)
  | '.' :: _ => (.twoDots, 1)
  | rest =>
    let fraction := rest.takeWhile Char.isDigit
    if fraction.isEmpty then (.dot, 0)
    else (.single (Single.ofDecimal (digitsToNat fraction) fraction.length), fraction.length)

/-- The longest operator or separator that `c` begins. -/
def readSymbol? (c : Char) (rest : List Char) : Option (LexemeKind × Nat) :=
  match c, rest with
  | '*', '*' :: '=' :: _ => some (.operator .powerAssign, 2)
  | '*', '*' :: _ => some (.operator .power, 1)
  | '*', '=' :: _ => some (.operator .multiplyAssign, 1)
  | '*', _ => some (.operator .multiply, 0)
  | '/', '=' :: _ => some (.operator .divideAssign, 1)
  | '/', _ => some (.operator .divide, 0)
  | '%', '=' :: _ => some (.operator .moduloAssign, 1)
  | '%', _ => some (.operator .modulo, 0)
  | '+', '=' :: _ => some (.operator .addAssign, 1)
  | '+', _ => some (.operator .add, 0)
  | '-', '=' :: _ => some (.operator .subtractAssign, 1)
  | '-', _ => some (.operator .subtract, 0)
  | '=', '=' :: _ => some (.operator .equal, 1)
  | '=', _ => some (.operator .assign, 0)
  | '!', '=' :: _ => some (.operator .notEqual, 1)
  | '!', _ => some (.operator .not, 0)
  | '<', '=' :: _ => some (.operator .lessEqual, 1)
  | '<', _ => some (.operator .less, 0)
  | '>', '=' :: _ => some (.operator .greaterEqual, 1)
  | '>', _ => some (.operator .greater, 0)
  | '&', '&' :: _ => some (.operator .and, 1)
  | '&', _ => some (.operator .bitAnd, 0)
  | '|', '|' :: _ => some (.operator .or, 1)
  | '|', _ => some (.operator .bitOr, 0)
  | '^', _ => some (.operator .bitXor, 0)
  | '(', _ => some (.separator .parenOpen, 0)
  | ')', _ => some (.separator .parenClose, 0)
  | '[', _ => some (.separator .bracketOpen, 0)
  | ']', _ => some (.separator .bracketClose, 0)
  | '{', _ => some (.separator .braceOpen, 0)
  | '}', _ => some (.separator .braceClose, 0)
  | ',', _ => some (.separator .comma, 0)
  | ';', _ => some (.separator .semicolon, 0)
  | _, _ => none

/-- The lexeme that begins with `c`, with the number of characters of `rest` it takes. -/
def read (c : Char) (rest : List Char) : Except SyntaxError (LexemeKind × Nat) :=
  if c == '"' then readQuoted rest
  else if c.isDigit then readNumber c rest
  else if c == '.' then .ok (readDot rest)
  else if isWordStart c then .ok (.word, (rest.takeWhile isWordChar).length)
  else
    match readSymbol? c rest with
    | some symbol => .ok symbol
    | none => .error (.unexpectedCharacter c.toString)

theorem length_dropWhile_le (p : Char → Bool) (cs : List Char) :
    (cs.dropWhile p).length ≤ cs.length :=
  (cs.dropWhile_sublist p).length_le

/-- The lexemes of a text. `spaced` says whether white space or the start of the line precedes it. -/
def scan (spaced : Bool) : List Char → Except SyntaxError (List Lexeme)
  | [] => .ok []
  | c :: rest =>
    if isGap c then scan true rest
    else if c == '/' && rest.head? == some '/' then scan true (rest.dropWhile (· != '\n'))
    else
      match read c rest with
      | .error e => .error e
      | .ok (kind, n) =>
        match scan false (rest.drop n) with
        | .error e => .error e
        | .ok others => .ok (⟨kind, String.ofList (c :: rest.take n), spaced⟩ :: others)
termination_by cs => cs.length
decreasing_by
  · simp
  · have := length_dropWhile_le (· != '\n') rest
    simp only [List.length_cons]
    omega
  · simp only [List.length_cons, List.length_drop]
    omega

end Lexeme

end BuildScript
