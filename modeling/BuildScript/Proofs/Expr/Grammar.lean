import BuildScript.Proofs.Expr.Reading

/-!
The grammar of operands. Read without a bound, an operand is a primary form followed by suffixes, and
each form reads the forms that it consists of.
-/

namespace BuildScript.Expr

variable {token after : Token}

theorem operandOf_eq (tokens : List Token) : operandOf tokens = (do
    let (primary, rest) ← primaryOf tokens
    suffixesOf primary rest) := by
  unfold operandOf ample
  rw [readOperand]
  exact (agree_primary (by omega)).bind_eq fun primary rest hrest => (agree_suffixes (by omega)).same

theorem suffixesOf_call (h : token.kind = .separator .parenOpen) (operand : Expr)
    (tokens : List Token) : suffixesOf operand (token :: tokens) = (do
      let (arguments, rest) ← argumentsOf tokens
      suffixesOf (.call operand arguments) rest) := by
  obtain ⟨kind, text, spaced⟩ := token
  cases h
  unfold suffixesOf ample
  rw [List.length_cons, readSuffixes]
  exact (agree_arguments (by omega)).bind_eq fun arguments rest hrest =>
    (agree_suffixes (by omega)).same

theorem suffixesOf_index (h : token.kind = .separator .bracketOpen) (operand : Expr)
    (tokens : List Token) : suffixesOf operand (token :: tokens) = (do
      let (index, rest) ← expressionOf tokens
      let rest ← Reader.closing .bracketClose rest
      suffixesOf (.binary .arrayAccess operand index) rest) := by
  obtain ⟨kind, text, spaced⟩ := token
  cases h
  unfold suffixesOf ample
  rw [List.length_cons, readSuffixes]
  refine (agree_expression (by omega)).bind_eq fun index rest hrest => ?_
  dsimp only
  cases hclosing : Reader.closing .bracketClose rest with
  | error e => rfl
  | ok rest' =>
    have hlength := length_closing_lt hclosing
    exact (agree_suffixes (by omega)).same

theorem suffixesOf_member (h : token.kind = .operator .member) (operand : Expr)
    (tokens : List Token) : suffixesOf operand (token :: tokens) = (do
      let (name, rest) ← Reader.identifier tokens
      suffixesOf (.member operand name) rest) := by
  obtain ⟨kind, text, spaced⟩ := token
  cases h
  unfold suffixesOf ample
  rw [List.length_cons, readSuffixes]
  exact (agree_identifier tokens).bind_eq fun name rest hrest => (agree_suffixes (by omega)).same

/-- The token continues no operand. -/
def EndsOperand (token : Token) : Prop :=
  token.kind ≠ .separator .parenOpen ∧ token.kind ≠ .separator .bracketOpen ∧
    token.kind ≠ .operator .member

theorem suffixesOf_end (operand : Expr) {tokens : List Token}
    (h : ∀ token ∈ tokens.head?, EndsOperand token) :
    suffixesOf operand tokens = .ok (operand, tokens) := by
  unfold suffixesOf ample readSuffixes
  split
  · rename_i heq
    cases heq
  · exact absurd rfl (h _ rfl).1
  · exact absurd rfl (h _ rfl).2.1
  · exact absurd rfl (h _ rfl).2.2
  · rfl

theorem primaryOf_literal {value : Literal} (h : token.kind = .literal value)
    (tokens : List Token) : primaryOf (token :: tokens) = .ok (.literal value, tokens) := by
  obtain ⟨kind, text, spaced⟩ := token
  cases h
  rfl

theorem primaryOf_ownMember {name : String} (h : token.kind = .ownMember name)
    (tokens : List Token) : primaryOf (token :: tokens) = .ok (.ownMember name, tokens) := by
  obtain ⟨kind, text, spaced⟩ := token
  cases h
  rfl

/-- A type keyword with a parenthesis after it begins a cast. -/
theorem primaryOf_cast {name : String} {type : DataType} (h : token.kind = .identifier name)
    (htype : DataType.ofKeyword? name = some type) (hafter : after.kind = .separator .parenOpen)
    (tokens : List Token) : primaryOf (token :: after :: tokens) = (do
      let (arguments, rest) ← argumentsOf tokens
      return (.cast type arguments, rest)) := by
  obtain ⟨kind, text, spaced⟩ := token
  obtain ⟨kind', text', spaced'⟩ := after
  cases h
  cases hafter
  unfold primaryOf ample readPrimary
  dsimp only
  rw [htype]
  exact (agree_arguments (by simp only [List.length_cons]; omega)).bind_eq fun _ _ _ => rfl

theorem primaryOf_name {name : String} (h : token.kind = .identifier name) {tokens : List Token}
    (hnext : ∀ token ∈ tokens.head?, token.kind ≠ .separator .parenOpen) :
    primaryOf (token :: tokens) = readName name tokens := by
  obtain ⟨kind, text, spaced⟩ := token
  cases h
  unfold primaryOf ample readPrimary
  dsimp only
  split
  · exact absurd rfl (hnext _ rfl)
  · rfl

theorem primaryOf_paren (h : token.kind = .separator .parenOpen) (tokens : List Token) :
    primaryOf (token :: tokens) = (do
      let (inner, rest) ← expressionOf tokens
      let rest ← Reader.closing .parenClose rest
      return (inner, rest)) := by
  obtain ⟨kind, text, spaced⟩ := token
  cases h
  unfold primaryOf ample readPrimary
  exact (agree_expression (by simp only [List.length_cons]; omega)).bind_eq fun _ _ _ => rfl

theorem primaryOf_empty (h : token.kind = .separator .bracketOpen)
    (hafter : after.kind = .separator .bracketClose) (tokens : List Token) :
    primaryOf (token :: after :: tokens) = .ok (.arrayLiteral [], tokens) := by
  obtain ⟨kind, text, spaced⟩ := token
  obtain ⟨kind', text', spaced'⟩ := after
  cases h
  cases hafter
  rfl

theorem primaryOf_array (h : token.kind = .separator .bracketOpen) {tokens : List Token}
    (hnext : ∀ token ∈ tokens.head?, token.kind ≠ .separator .bracketClose) :
    primaryOf (token :: tokens) = (do
      let (elements, rest) ← elementsOf tokens
      return (.arrayLiteral elements, rest)) := by
  obtain ⟨kind, text, spaced⟩ := token
  cases h
  unfold primaryOf ample readPrimary
  dsimp only
  split
  · exact absurd rfl (hnext _ rfl)
  · exact (agree_elements (by simp only [List.length_cons]; omega)).bind_eq fun _ _ _ => rfl

theorem elementsOf_eq (tokens : List Token) : elementsOf tokens = (do
    let (element, rest) ← expressionOf tokens
    match rest with
    | [] => .error (.expectedClosing Separator.bracketClose.char)
    | ⟨.separator .bracketClose, _, _⟩ :: rest => .ok ([element], rest)
    | ⟨.separator .comma, _, _⟩ :: rest =>
      let (elements, rest) ← elementsOf rest
      return (element :: elements, rest)
    | token :: _ => .error (.unexpectedToken token.text)) := by
  unfold elementsOf ample
  rw [readElements]
  refine (agree_expression (by omega)).bind_eq fun element rest hrest => ?_
  rcases rest with _ | ⟨⟨kind, text, spaced⟩, rest⟩
  · rfl
  · cases kind with
    | separator separator =>
      cases separator with
      | comma =>
        rw [List.length_cons] at hrest
        exact (agree_elements (by omega)).bind_eq fun _ _ _ => rfl
      | _ => rfl
    | _ => rfl

theorem argumentsOf_none (h : token.kind = .separator .parenClose) (tokens : List Token) :
    argumentsOf (token :: tokens) = .ok ([], tokens) := by
  obtain ⟨kind, text, spaced⟩ := token
  cases h
  rfl

theorem argumentsOf_some {tokens : List Token}
    (h : ∀ token ∈ tokens.head?, token.kind ≠ .separator .parenClose) :
    argumentsOf tokens = argumentsFromOf 1 tokens := by
  unfold argumentsOf ample readArguments
  split
  · rename_i heq
    cases heq
  · exact absurd rfl (h _ rfl)
  · rename_i heq
    cases heq
    exact (agree_argumentsFrom (by omega)).same

theorem argumentsFromOf_eq (position : Nat) (tokens : List Token) :
    argumentsFromOf position tokens =
      match expressionOf tokens with
      | .error _ => .error (.invalidArgument position)
      | .ok (_, []) => .error (.expectedClosing Separator.parenClose.char)
      | .ok (argument, ⟨.separator .parenClose, _, _⟩ :: rest) => .ok ([argument], rest)
      | .ok (argument, ⟨.separator .comma, _, _⟩ :: rest) => do
        let (arguments, rest) ← argumentsFromOf (position + 1) rest
        return (argument :: arguments, rest)
      | .ok _ => .error (.invalidArgument position) := by
  unfold argumentsFromOf ample
  rw [readArgumentsFrom]
  obtain ⟨hsame, hleft⟩ := @agree_expression (5 * tokens.length + 5) tokens (by omega)
  rw [hsame]
  cases hread : expressionOf tokens with
  | error e => rfl
  | ok read =>
    obtain ⟨argument, rest⟩ := read
    have hrest := hleft argument rest (hsame.trans hread)
    rcases rest with _ | ⟨⟨kind, text, spaced⟩, rest⟩
    · rfl
    · cases kind with
      | separator separator =>
        cases separator with
        | comma =>
          rw [List.length_cons] at hrest
          exact (agree_argumentsFrom (by omega)).bind_eq fun _ _ _ => rfl
        | _ => rfl
      | _ => rfl

end BuildScript.Expr
