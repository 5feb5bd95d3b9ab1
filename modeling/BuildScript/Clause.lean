import BuildScript.Token.Basic
import BuildScript.SyntaxError

/-!
Clauses: what a logical line is made of. Outside parentheses and brackets a semicolon ends a
statement, braces and `else` stand alone, `if` takes the condition in parentheses that must follow
it, and `return` takes the rest of its statement. Empty statements vanish.
-/

namespace BuildScript

inductive Clause where
  | condition (tokens : List Token)
  | elseMark
  | blockOpen
  | blockClose
  | giveBack (tokens : List Token)
  | statement (tokens : List Token)
  /-- An `if` without a condition; nothing of the line is read after it. -/
  | malformed (error : SyntaxError)
  deriving Inhabited

namespace Clause

/-- Whether a token ends the statement before it when it stands outside parentheses. -/
def isBoundary (token : Token) : Bool :=
  match token.kind with
  | .separator .semicolon | .separator .braceOpen | .separator .braceClose => true
  | .keyword .elseWord | .keyword .ifWord | .keyword .returnWord => true
  | _ => false

/-- The nesting of parentheses and brackets after a token. A closing one too many is ignored. -/
def nesting (depth : Nat) (token : Token) : Nat :=
  match token.kind with
  | .separator .parenOpen | .separator .bracketOpen => depth + 1
  | .separator .parenClose | .separator .bracketClose => depth - 1
  | _ => depth

/-- The length of the statement at the front: up to the first boundary outside parentheses. -/
def statementLength (depth : Nat) : List Token → Nat
  | [] => 0
  | token :: rest =>
    if depth == 0 && isBoundary token then 0
    else statementLength (nesting depth token) rest + 1

/-- The number of tokens before the parenthesis that closes the condition. -/
def conditionLength? (depth : Nat) : List Token → Option Nat
  | [] => none
  | token :: rest =>
    if token.isSeparator .parenClose then
      if depth == 0 then some 0 else (conditionLength? (depth - 1) rest).map (· + 1)
    else if token.isSeparator .parenOpen then (conditionLength? (depth + 1) rest).map (· + 1)
    else (conditionLength? depth rest).map (· + 1)

/-- The clause after an `if`, with the number of tokens it takes. -/
def readCondition : List Token → Clause × Nat
  | ⟨.separator .parenOpen, _, _⟩ :: rest =>
    match conditionLength? 0 rest with
    | some n => (.condition (rest.take n), n + 2)
    | none => (.malformed (.expectedClosing Separator.parenClose.char), rest.length + 1)
  | tokens => (.malformed .missingCondition, tokens.length)

/-- The clause that begins with a token, with the number of tokens after it that it takes. A
semicolon begins none. -/
def read? (token : Token) (rest : List Token) : Option (Clause × Nat) :=
  match token.kind with
  | .separator .semicolon => none
  | .separator .braceOpen => some (.blockOpen, 0)
  | .separator .braceClose => some (.blockClose, 0)
  | .keyword .elseWord => some (.elseMark, 0)
  | .keyword .ifWord => some (readCondition rest)
  | .keyword .returnWord =>
    let n := statementLength 0 rest
    some (.giveBack (rest.take n), n)
  | _ =>
    let n := statementLength (nesting 0 token) rest
    some (.statement (token :: rest.take n), n)

/-- The clauses of a line, each with the position of its first token; `position` is that of the
first token given. -/
def splitFrom (position : Nat) : List Token → List (Nat × Clause)
  | [] => []
  | token :: rest =>
    match read? token rest with
    | none => splitFrom (position + 1) rest
    | some (clause, n) => (position, clause) :: splitFrom (position + 1 + n) (rest.drop n)
termination_by tokens => tokens.length
decreasing_by
  · simp
  · simp only [List.length_cons, List.length_drop]
    omega

def split (tokens : List Token) : List (Nat × Clause) := splitFrom 0 tokens

end Clause

end BuildScript
