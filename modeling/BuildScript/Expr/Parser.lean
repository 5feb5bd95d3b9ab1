import BuildScript.Expr.Chain
import BuildScript.Token.Reader

/-!
The expression grammar. An operand is a literal, a name, a declaration, a cast, an array or a
parenthesised expression, followed by any number of calls, indices and members; operands joined by
operators form a chain. Reading stops at the first token that cannot continue the expression. Each
step of the grammar takes one unit of fuel, and five units for each token are enough.
-/

namespace BuildScript

namespace Expr

/-- The prefix operators at the front, and what follows them. -/
def readPrefixes : List Token → List Operator × List Token
  | ⟨.operator .subtract, _, _⟩ :: rest
  | ⟨.operator .negate, _, _⟩ :: rest =>
    let (others, rest) := readPrefixes rest
    (.negate :: others, rest)
  | ⟨.operator .not, _, _⟩ :: rest =>
    let (others, rest) := readPrefixes rest
    (.not :: others, rest)
  | tokens => ([], tokens)

/-- The binary operator at the front, if there is one. -/
def readBinary? : List Token → Option (Operator × List Token)
  | ⟨.operator op, _, _⟩ :: rest => if op.isBinary then some (op, rest) else none
  | _ => none

/-- What an identifier begins when no cast does: a declaration if a name follows the type. -/
def readName (name : String) (tokens : List Token) : Except SyntaxError (Expr × List Token) :=
  match Reader.typeSuffix (Reader.typeOfName name) tokens with
  | (type, ⟨.identifier declared, _, _⟩ :: rest) => .ok (.declare type declared, rest)
  | (.array element, _) => .error (.unexpectedTypeName (DataType.array element).text)
  | _ => .ok (.identifier name, tokens)

mutual

def readExpression : Nat → List Token → Except SyntaxError (Expr × List Token)
  | 0, _ => .error .unexpectedEnd
  | fuel + 1, tokens => do
    let (first, rest) ← readTerm fuel tokens
    let (others, rest) ← readOthers fuel rest
    return ((Chain.mk first others).toExpr, rest)

def readTerm : Nat → List Token → Except SyntaxError (Term × List Token)
  | 0, _ => .error .unexpectedEnd
  | fuel + 1, tokens => do
    let (prefixes, rest) := readPrefixes tokens
    let (operand, rest) ← readOperand fuel rest
    return (⟨prefixes, operand⟩, rest)

/-- The operators that follow a term, each with its right term. -/
def readOthers : Nat → List Token → Except SyntaxError (List (Operator × Term) × List Token)
  | 0, _ => .error .unexpectedEnd
  | fuel + 1, tokens =>
    match readBinary? tokens with
    | none => .ok ([], tokens)
    | some (op, rest) => do
      let (term, rest) ← readTerm fuel rest
      let (others, rest) ← readOthers fuel rest
      return ((op, term) :: others, rest)

def readOperand : Nat → List Token → Except SyntaxError (Expr × List Token)
  | 0, _ => .error .unexpectedEnd
  | fuel + 1, tokens => do
    let (primary, rest) ← readPrimary fuel tokens
    readSuffixes fuel primary rest

/-- Calls, indices and members, applied to the operand as they come. -/
def readSuffixes : Nat → Expr → List Token → Except SyntaxError (Expr × List Token)
  | 0, _, _ => .error .unexpectedEnd
  | fuel + 1, operand, ⟨.separator .parenOpen, _, _⟩ :: rest => do
    let (arguments, rest) ← readArguments fuel rest
    readSuffixes fuel (.call operand arguments) rest
  | fuel + 1, operand, ⟨.separator .bracketOpen, _, _⟩ :: rest => do
    let (index, rest) ← readExpression fuel rest
    let rest ← Reader.closing .bracketClose rest
    readSuffixes fuel (.binary .arrayAccess operand index) rest
  | fuel + 1, operand, ⟨.operator .member, _, _⟩ :: rest => do
    let (name, rest) ← Reader.identifier rest
    readSuffixes fuel (.member operand name) rest
  | _ + 1, operand, tokens => .ok (operand, tokens)

def readPrimary : Nat → List Token → Except SyntaxError (Expr × List Token)
  | 0, _ => .error .unexpectedEnd
  | _ + 1, [] => .error .unexpectedEnd
  | fuel + 1, token :: rest =>
    match token.kind with
    | .literal value => .ok (.literal value, rest)
    | .ownMember name => .ok (.ownMember name, rest)
    | .identifier name =>
      match DataType.ofKeyword? name, rest with
      | some type, ⟨.separator .parenOpen, _, _⟩ :: rest => do
        let (arguments, rest) ← readArguments fuel rest
        return (.cast type arguments, rest)
      | _, _ => readName name rest
    | .separator .parenOpen => do
      let (inner, rest) ← readExpression fuel rest
      let rest ← Reader.closing .parenClose rest
      return (inner, rest)
    | .separator .bracketOpen =>
      match rest with
      | ⟨.separator .bracketClose, _, _⟩ :: rest => .ok (.arrayLiteral [], rest)
      | _ => do
        let (elements, rest) ← readElements fuel rest
        return (.arrayLiteral elements, rest)
    | _ => .error (.unexpectedToken token.text)

/-- The elements of an array up to its closing bracket. -/
def readElements : Nat → List Token → Except SyntaxError (List Expr × List Token)
  | 0, _ => .error .unexpectedEnd
  | fuel + 1, tokens => do
    let (element, rest) ← readExpression fuel tokens
    match rest with
    | [] => .error (.expectedClosing Separator.bracketClose.char)
    | ⟨.separator .bracketClose, _, _⟩ :: rest => .ok ([element], rest)
    | ⟨.separator .comma, _, _⟩ :: rest =>
      let (elements, rest) ← readElements fuel rest
      return (element :: elements, rest)
    | token :: _ => .error (.unexpectedToken token.text)

/-- The arguments of a call after its opening parenthesis. -/
def readArguments : Nat → List Token → Except SyntaxError (List Expr × List Token)
  | 0, _ => .error .unexpectedEnd
  | _ + 1, ⟨.separator .parenClose, _, _⟩ :: rest => .ok ([], rest)
  | fuel + 1, tokens => readArgumentsFrom fuel 1 tokens

/-- The arguments from a position on. Whatever is wrong with an argument is reported as its
position. -/
def readArgumentsFrom : Nat → Nat → List Token → Except SyntaxError (List Expr × List Token)
  | 0, _, _ => .error .unexpectedEnd
  | fuel + 1, position, tokens =>
    match readExpression fuel tokens with
    | .error _ => .error (.invalidArgument position)
    | .ok (_, []) => .error (.expectedClosing Separator.parenClose.char)
    | .ok (argument, ⟨.separator .parenClose, _, _⟩ :: rest) => .ok ([argument], rest)
    | .ok (argument, ⟨.separator .comma, _, _⟩ :: rest) => do
      let (arguments, rest) ← readArgumentsFrom fuel (position + 1) rest
      return (argument :: arguments, rest)
    | .ok _ => .error (.invalidArgument position)

end

/-- Fuel that no expression over so many tokens exhausts. -/
def enoughFuel (tokens : List Token) : Nat := 5 * tokens.length + 5

/-- Parses tokens that must form exactly one expression. -/
def parse (tokens : List Token) : Except SyntaxError Expr := do
  let (expr, rest) ← readExpression (enoughFuel tokens) tokens
  match rest with
  | [] => return expr
  | token :: _ => .error (.trailingTokens token.text)

end Expr

end BuildScript
