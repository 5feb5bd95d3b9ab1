import BuildScript.Operator

/-!
Tokens: what a piece of a line stands for, the text it was read from, and whether white space or
the start of the line came before it. Rendering puts one blank where white space was, which is
enough for the line to be read back.
-/

namespace BuildScript

/-- A value written in a script. -/
inductive Literal where
  | bool (value : Bool)
  | int (value : Int32)
  | float (value : Float32)
  | string (value : String)
  deriving Inhabited

inductive Separator where
  | parenOpen
  | parenClose
  | bracketOpen
  | bracketClose
  | braceOpen
  | braceClose
  | comma
  | semicolon
  deriving DecidableEq

def Separator.char : Separator → Char
  | parenOpen => '('
  | parenClose => ')'
  | bracketOpen => '['
  | bracketClose => ']'
  | braceOpen => '{'
  | braceClose => '}'
  | comma => ','
  | semicolon => ';'

/-- The words that steer statements instead of naming values. -/
inductive Keyword where
  | ifWord
  | elseWord
  | returnWord
  | classWord
  | procedureWord
  deriving DecidableEq

def Keyword.ofWord? (word : String) : Option Keyword :=
  match word with
  | "if" => some .ifWord
  | "else" => some .elseWord
  | "return" => some .returnWord
  | "class" => some .classWord
  | "procedure" => some .procedureWord
  | _ => none

inductive TokenKind where
  | literal (value : Literal)
  | identifier (name : String)
  /-- A name with a point before it and white space before the point: a member of the receiver. -/
  | ownMember (name : String)
  | operator (op : Operator)
  | separator (separator : Separator)
  | keyword (keyword : Keyword)
  deriving Inhabited

structure Token where
  kind : TokenKind
  text : String
  /-- White space or the start of the line came before the token. -/
  spaced : Bool
  deriving Inhabited

namespace Token

def isSeparator (token : Token) (separator : Separator) : Bool :=
  match token.kind with
  | .separator s => s == separator
  | _ => false

/-- The tokens as text, with a blank before every spaced one but the first. -/
def render : List Token → String
  | [] => ""
  | first :: others =>
    others.foldl (fun out token => out ++ (if token.spaced then " " else "") ++ token.text)
      first.text

end Token

end BuildScript
