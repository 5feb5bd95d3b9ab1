/-!
Escape sequences. A backslash pairs up with the character after it; ten characters have a meaning
there. Quoted literals are read strictly, so a pair without meaning is an error, while text from
outside a script is read leniently and keeps such a pair as written.
-/

namespace BuildScript.Text

/-- The character a backslash followed by `c` stands for. -/
def escapeMeaning? (c : Char) : Option Char :=
  match c with
  | 'n' => some '\n'
  | 't' => some '\t'
  | '\\' => some '\\'
  | '"' => some '"'
  | 'a' => some '\x07'
  | 'b' => some '\x08'
  | 'f' => some '\x0c'
  | 'r' => some '\r'
  | 'v' => some '\x0b'
  | '?' => some '?'
  | _ => none

/-- Replaces every pair; the error is the first character that has no meaning after a backslash,
or the backslash itself at the end of the text. -/
def unescapeChars : List Char → Except Char (List Char)
  | [] => .ok []
  | '\\' :: [] => .error '\\'
  | '\\' :: c :: rest =>
    match escapeMeaning? c with
    | none => .error c
    | some meaning => (unescapeChars rest).map (meaning :: ·)
  | c :: rest => (unescapeChars rest).map (c :: ·)

/-- Replaces the pairs that have a meaning and keeps every other character. -/
def unescapeCharsLenient : List Char → List Char
  | [] => []
  | '\\' :: c :: rest =>
    match escapeMeaning? c with
    | none => '\\' :: unescapeCharsLenient (c :: rest)
    | some meaning => meaning :: unescapeCharsLenient rest
  | c :: rest => c :: unescapeCharsLenient rest

def unescape (text : String) : Except Char String :=
  (unescapeChars text.toList).map String.ofList

def unescapeLenient (text : String) : String :=
  String.ofList (unescapeCharsLenient text.toList)

end BuildScript.Text
