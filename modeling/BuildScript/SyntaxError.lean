/-!
What can be wrong with the text of a statement, found before anything in it is evaluated.
-/

namespace BuildScript

inductive SyntaxError where
  | unexpectedCharacter (text : String)
  | unterminatedString
  /-- A backslash before a character without meaning. -/
  | unknownEscape (escape : Char)
  | malformedNumber (text : String)
  | integerOutOfRange (text : String)
  /-- A point that is neither member access nor part of a number or a continuation. -/
  | strayDot
  | misplacedContinuation
  | unexpectedToken (token : String)
  | unexpectedEnd
  | expectedClosing (delimiter : Char)
  | expectedIdentifier (found : String)
  | invalidFunctionDeclaration (details : String)
  /-- The position counts from one. -/
  | invalidArgument (position : Nat)
  | missingCondition
  | unexpectedTypeName (name : String)
  | expectedBody (name : String)
  | unterminatedBody (name : String)
  | trailingTokens (token : String)
  | invalidClassMember
  deriving DecidableEq, Inhabited

def SyntaxError.message : SyntaxError → String
  | unexpectedCharacter text => "unexpected character '" ++ text ++ "'"
  | unterminatedString => "unterminated string literal"
  | unknownEscape escape => "unknown escape sequence '\\" ++ escape.toString ++ "'"
  | malformedNumber text => "malformed number '" ++ text ++ "'"
  | integerOutOfRange text => "integer literal '" ++ text ++ "' is out of range"
  | strayDot => "unexpected '.'"
  | misplacedContinuation => "'...' must be the last token on a line"
  | unexpectedToken token => "unexpected token '" ++ token ++ "'"
  | unexpectedEnd => "unexpected end of statement"
  | expectedClosing delimiter => "expected closing '" ++ delimiter.toString ++ "'"
  | expectedIdentifier found => "expected identifier, found '" ++ found ++ "'"
  | invalidFunctionDeclaration details => "invalid function declaration: " ++ details
  | invalidArgument position => "invalid argument " ++ toString position
  | missingCondition => "expected '(' after 'if'"
  | unexpectedTypeName name => "unexpected type name '" ++ name ++ "'"
  | expectedBody name => "expected '\x7b' to begin the body of '" ++ name ++ "'"
  | unterminatedBody name => "unterminated body of '" ++ name ++ "'"
  | trailingTokens token => "extra tokens after statement: '" ++ token ++ "'"
  | invalidClassMember => "class bodies may only contain field and method declarations"

end BuildScript
