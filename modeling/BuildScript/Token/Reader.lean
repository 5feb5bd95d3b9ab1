import BuildScript.DataType
import BuildScript.SyntaxError
import BuildScript.Token.Basic

/-!
Reading names, separators and types off the front of a token list. Every reader gives what it read
with the tokens that are left.
-/

namespace BuildScript.Reader

def separator? : List Token → Option Separator
  | ⟨.separator s, _, _⟩ :: _ => some s
  | _ => none

/-- Takes the given closing separator. -/
def closing (separator : Separator) : List Token → Except SyntaxError (List Token)
  | token :: rest =>
    if token.isSeparator separator then .ok rest
    else .error (.expectedClosing separator.char)
  | [] => .error (.expectedClosing separator.char)

/-- Takes a name that is no member of the receiver. -/
def identifier : List Token → Except SyntaxError (String × List Token)
  | [] => .error .unexpectedEnd
  | ⟨.identifier name, _, _⟩ :: rest => .ok (name, rest)
  | token :: _ => .error (.expectedIdentifier token.text)

/-- Takes `[]` pairs, each making an array type of the one before. A bracket with something in it
is left alone. -/
def typeSuffix (base : DataType) : List Token → DataType × List Token
  | ⟨.separator .bracketOpen, _, _⟩ :: ⟨.separator .bracketClose, _, _⟩ :: rest =>
    typeSuffix (.array base) rest
  | tokens => (base, tokens)

/-- The type a name stands for: a keyword's own, or the objects of a class. -/
def typeOfName (name : String) : DataType := (DataType.ofKeyword? name).getD (.object name)

def type (tokens : List Token) : Except SyntaxError (DataType × List Token) := do
  let (name, rest) ← identifier tokens
  return typeSuffix (typeOfName name) rest

end BuildScript.Reader
