import BuildScript.Expr.Parser

/-!
The statement grammar: headers of classes and procedures, headers of functions, and expressions. A
function header is a type, a name and an opening parenthesis.
-/

namespace BuildScript.Statement

/-- The one name of a class or procedure header. -/
def readHeaderName (tokens : List Token) : Except SyntaxError String := do
  let (name, rest) ← Reader.identifier tokens
  match rest with
  | [] => return name
  | token :: _ => .error (.trailingTokens token.text)

/-- Whether the tokens begin like `T name(`. -/
def startsSignature (tokens : List Token) : Bool :=
  match Reader.type tokens with
  | .error _ => false
  | .ok (_, rest) =>
    match Reader.identifier rest with
    | .error _ => false
    | .ok (_, rest) => Reader.separator? rest == some .parenOpen

/-- `T name` or `T &name`. -/
def readParameter (tokens : List Token) : Except SyntaxError (Parameter × List Token) :=
  match Reader.type tokens with
  | .error _ => .error (.invalidFunctionDeclaration "expected a parameter type")
  | .ok (type, rest) =>
    let (byReference, rest) :=
      match rest with
      | ⟨.operator .bitAnd, _, _⟩ :: rest => (true, rest)
      | _ => (false, rest)
    match Reader.identifier rest with
    | .error _ => .error (.invalidFunctionDeclaration "expected a parameter name")
    | .ok (name, rest) => .ok (⟨type, name, byReference⟩, rest)

/-- Parameters up to the closing parenthesis. Each takes a token, so the number of tokens is fuel
enough. -/
def readParameters : Nat → List Token → Except SyntaxError (List Parameter × List Token)
  | 0, _ => .error .unexpectedEnd
  | fuel + 1, tokens => do
    let (param, rest) ← readParameter tokens
    match rest with
    | ⟨.separator .parenClose, _, _⟩ :: rest => return ([param], rest)
    | ⟨.separator .comma, _, _⟩ :: rest =>
      let (params, rest) ← readParameters fuel rest
      return (param :: params, rest)
    | _ => .error (.invalidFunctionDeclaration "expected ',' or ')' after a parameter")

def parseSignature (tokens : List Token) : Except SyntaxError Signature := do
  let (returnType, rest) ← Reader.type tokens
  let (name, rest) ← Reader.identifier rest
  let (params, rest) ←
    match rest.tail with
    | ⟨.separator .parenClose, _, _⟩ :: rest => pure ([], rest)
    | rest => readParameters (rest.length + 1) rest
  match rest with
  | [] => return ⟨name, returnType, params⟩
  | token :: _ => .error (.trailingTokens token.text)

def parse (tokens : List Token) : Except SyntaxError Statement :=
  match tokens with
  | ⟨.keyword .classWord, _, _⟩ :: rest => (readHeaderName rest).map (.declaration ∘ .classNamed)
  | ⟨.keyword .procedureWord, _, _⟩ :: rest => (readHeaderName rest).map (.declaration ∘ .procedure)
  | _ =>
    if startsSignature tokens then (parseSignature tokens).map (.declaration ∘ .function)
    else (Expr.parse tokens).map .expression

end BuildScript.Statement
