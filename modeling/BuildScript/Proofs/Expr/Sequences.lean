import BuildScript.Proofs.Expr.Grouping
import BuildScript.Proofs.Expr.Reading

/-!
What an expression looks like on tokens: operands joined by binary operators, each with signs before
it. Where tokens begin with such a sequence it is read off them, and where they do not, one of the
operands cannot be read.
-/

namespace BuildScript.Expr

/-- The operator that a token before an operand is. A minus there is a negation however it was
lexed. -/
def signOf? (token : Token) : Option Operator :=
  match token.kind with
  | .operator .subtract | .operator .negate => some .negate
  | .operator .not => some .not
  | _ => none

/-- The token is an operator that takes operands to both sides. -/
def Joins (token : Token) (op : Operator) : Prop :=
  token.kind = .operator op ∧ op.isBinary = true

/-- The tokens begin with an operand that has any number of signs before it. -/
inductive TermAt : List Token → Term → List Token → Prop
  | operand {tokens expr rest} (hread : operandOf tokens = .ok (expr, rest)) :
    TermAt tokens ⟨[], expr⟩ rest
  | sign {token op tokens term rest} (hsign : signOf? token = some op)
    (hterm : TermAt tokens term rest) :
    TermAt (token :: tokens) ⟨op :: term.prefixes, term.operand⟩ rest

/-- The tokens begin with terms joined by binary operators, and no further one follows. -/
inductive ChainAt : List Token → Chain → List Token → Prop
  | last {tokens term rest} (hterm : TermAt tokens term rest)
    (hend : ∀ token ∈ rest.head?, ∀ op, ¬Joins token op) : ChainAt tokens ⟨term, []⟩ rest
  | joined {tokens token op first middle chain rest}
    (hterm : TermAt tokens first (token :: middle)) (hjoins : Joins token op)
    (hchain : ChainAt middle chain rest) :
    ChainAt tokens ⟨first, (op, chain.first) :: chain.others⟩ rest

/-- After the signs at the front an operand cannot be read, and this is the error. -/
inductive TermFails (e : SyntaxError) : List Token → Prop
  | operand {tokens} (hsign : ∀ token ∈ tokens.head?, signOf? token = none)
    (hread : operandOf tokens = .error e) : TermFails e tokens
  | sign {token op tokens} (hsign : signOf? token = some op) (hterm : TermFails e tokens) :
    TermFails e (token :: tokens)

/-- After some joined terms an operand cannot be read, and this is the error. -/
inductive ChainFails (e : SyntaxError) : List Token → Prop
  | term {tokens} (hterm : TermFails e tokens) : ChainFails e tokens
  | joined {tokens token op first middle} (hterm : TermAt tokens first (token :: middle))
    (hjoins : Joins token op) (hchain : ChainFails e middle) : ChainFails e tokens

variable {token : Token} {tokens rest : List Token} {op : Operator} {term : Term} {chain : Chain}

theorem readPrefixes_sign (h : signOf? token = some op) (tokens : List Token) :
    readPrefixes (token :: tokens) = (op :: (readPrefixes tokens).1, (readPrefixes tokens).2) := by
  obtain ⟨kind, text, spaced⟩ := token
  unfold signOf? at h
  split at h <;> cases h <;> rename_i hkind <;> cases hkind <;> rw [readPrefixes]

theorem readPrefixes_none (h : ∀ token ∈ tokens.head?, signOf? token = none) :
    readPrefixes tokens = ([], tokens) := by
  unfold readPrefixes
  split
  · cases h _ rfl
  · cases h _ rfl
  · cases h _ rfl
  · rfl

theorem readPrefixes_isUnary (tokens : List Token) :
    ∀ op ∈ (readPrefixes tokens).1, op.isUnary = true := by
  fun_induction readPrefixes tokens with
  | case1 text spaced rest others rest' heq ih | case2 text spaced rest others rest' heq ih
  | case3 text spaced rest others rest' heq ih =>
    rw [heq] at ih
    rintro op (_ | ⟨_, hop⟩)
    · rfl
    · exact ih op hop
  | case4 tokens =>
    intro op hop
    cases hop

/-- A term that was read has signs before its operand only. -/
theorem termOf_isUnary (h : termOf tokens = .ok (term, rest)) :
    ∀ op ∈ term.prefixes, op.isUnary = true := by
  rw [termOf_eq] at h
  cases hread : operandOf (readPrefixes tokens).2 with
  | error e =>
    rw [hread] at h
    cases h
  | ok read =>
    rw [hread] at h
    cases h
    exact readPrefixes_isUnary tokens

theorem length_termOf_lt (h : termOf tokens = .ok (term, rest)) : rest.length < tokens.length :=
  (agree_term (n := ample tokens) (by unfold ample; omega)).left _ _ h

/-- No operand begins with a sign. -/
theorem signOf?_of_operandOf {expr : Expr} (h : operandOf tokens = .ok (expr, rest)) :
    ∀ token ∈ tokens.head?, signOf? token = none := by
  intro token hmem
  obtain ⟨kind, text, spaced⟩ := token
  obtain ⟨others, rfl⟩ := List.head?_eq_some_iff.mp hmem
  cases kind with
  | operator op =>
    unfold operandOf ample readOperand at h
    cases h
  | _ => rfl

theorem TermAt.termOf_eq (h : TermAt tokens term rest) : termOf tokens = .ok (term, rest) := by
  induction h with
  | operand hread =>
    rw [Expr.termOf_eq, readPrefixes_none (signOf?_of_operandOf hread), hread]
    rfl
  | sign hsign hterm ih =>
    rw [Expr.termOf_eq, readPrefixes_sign hsign]
    rw [Expr.termOf_eq] at ih
    dsimp only at ih ⊢
    generalize operandOf _ = read at ih
    cases read with
    | error e => cases ih
    | ok read =>
      cases ih
      rfl

theorem readBinary?_of_joins (h : Joins token op) (tokens : List Token) :
    readBinary? (token :: tokens) = some (op, tokens) := by
  obtain ⟨kind, text, spaced⟩ := token
  obtain ⟨hkind, hbinary⟩ := h
  cases hkind
  exact if_pos hbinary

theorem readBinary?_eq_none_iff :
    readBinary? tokens = none ↔ ∀ token ∈ tokens.head?, ∀ op, ¬Joins token op := by
  constructor
  · rintro h token hmem op hjoins
    obtain ⟨others, rfl⟩ := List.head?_eq_some_iff.mp hmem
    rw [readBinary?_of_joins hjoins] at h
    cases h
  · intro h
    cases hread : readBinary? tokens with
    | none => rfl
    | some read =>
      obtain ⟨token, rfl, hkind, hbinary⟩ := readBinary?_eq_some hread
      exact absurd ⟨hkind, hbinary⟩ (h token rfl read.1)

/-- A sequence that is there is read, term for term. -/
theorem ChainAt.read (h : ChainAt tokens chain rest) :
    ∃ middle, termOf tokens = .ok (chain.first, middle) ∧
      othersOf middle = .ok (chain.others, rest) := by
  induction h with
  | last hterm hend =>
    refine ⟨_, hterm.termOf_eq, ?_⟩
    rw [othersOf_eq, readBinary?_eq_none_iff.mpr hend]
  | joined hterm hjoins hchain ih =>
    obtain ⟨middle, hfirst, hothers⟩ := ih
    refine ⟨_, hterm.termOf_eq, ?_⟩
    rw [othersOf_eq, readBinary?_of_joins hjoins]
    dsimp only
    rw [hfirst]
    dsimp only [bind, Except.bind]
    rw [hothers]
    rfl

theorem ChainAt.expressionOf_eq (h : ChainAt tokens chain rest) :
    expressionOf tokens = .ok (chain.toExpr, rest) := by
  obtain ⟨middle, hfirst, hothers⟩ := h.read
  rw [Expr.expressionOf_eq, hfirst]
  dsimp only [bind, Except.bind]
  rw [hothers]
  rfl

theorem TermAt.isUnary (h : TermAt tokens term rest) : ∀ op ∈ term.prefixes, op.isUnary = true :=
  termOf_isUnary h.termOf_eq

theorem ChainAt.sorted (h : ChainAt tokens chain rest) : chain.Sorted := by
  induction h with
  | last hterm hend => exact ⟨hterm.isUnary, nofun⟩
  | joined hterm hjoins hchain ih =>
    refine ⟨hterm.isUnary, ?_⟩
    rintro other (_ | ⟨_, hmem⟩)
    · exact ⟨hjoins.2, ih.1⟩
    · exact ih.2 other hmem

/-- A term is read off the tokens, or its operand cannot be read. -/
theorem termAt_or_fails (tokens : List Token) :
    (∃ term rest, TermAt tokens term rest) ∨ ∃ e, TermFails e tokens := by
  have hplain (tokens : List Token) (h : ∀ token ∈ tokens.head?, signOf? token = none) :
      (∃ term rest, TermAt tokens term rest) ∨ ∃ e, TermFails e tokens := by
    cases hread : operandOf tokens with
    | error e => exact .inr ⟨e, .operand h hread⟩
    | ok read => exact .inl ⟨_, _, .operand hread⟩
  induction tokens with
  | nil => exact hplain [] nofun
  | cons token rest ih =>
    cases hsign : signOf? token with
    | none =>
      refine hplain _ ?_
      rintro _ ⟨⟩
      exact hsign
    | some op =>
      rcases ih with ⟨term, rest', hterm⟩ | ⟨e, hfails⟩
      · exact .inl ⟨_, _, .sign hsign hterm⟩
      · exact .inr ⟨e, .sign hsign hfails⟩

theorem TermFails.termOf_eq {e : SyntaxError} (h : TermFails e tokens) :
    termOf tokens = .error e := by
  induction h with
  | operand hsign hread =>
    rw [Expr.termOf_eq, readPrefixes_none hsign, hread]
    rfl
  | sign hsign hterm ih =>
    rw [Expr.termOf_eq, readPrefixes_sign hsign]
    rw [Expr.termOf_eq] at ih
    dsimp only at ih ⊢
    generalize operandOf _ = read at ih
    cases read with
    | error e =>
      cases ih
      rfl
    | ok read => cases ih

theorem ChainFails.expressionOf_eq {e : SyntaxError} (h : ChainFails e tokens) :
    expressionOf tokens = .error e := by
  induction h with
  | term hterm =>
    rw [Expr.expressionOf_eq, hterm.termOf_eq]
    rfl
  | @joined _ _ _ _ middle hterm hjoins hchain ih =>
    rw [Expr.expressionOf_eq] at ih
    rw [Expr.expressionOf_eq, hterm.termOf_eq]
    dsimp only [bind, Except.bind] at ih ⊢
    rw [othersOf_eq, readBinary?_of_joins hjoins]
    dsimp only [bind, Except.bind]
    cases hfirst : termOf middle with
    | error e' =>
      rw [hfirst] at ih
      exact ih
    | ok first =>
      rw [hfirst] at ih
      dsimp only at ih ⊢
      cases hothers : othersOf first.2 with
      | error e' =>
        rw [hothers] at ih
        exact ih
      | ok others =>
        rw [hothers] at ih
        cases ih

/-- A sequence is read off the tokens, or one of its operands cannot be read. -/
theorem chainAt_or_fails (tokens : List Token) :
    (∃ chain rest, ChainAt tokens chain rest) ∨ ∃ e, ChainFails e tokens := by
  induction hlength : tokens.length using Nat.strongRecOn generalizing tokens with
  | ind length ih =>
    subst hlength
    rcases termAt_or_fails tokens with ⟨term, rest, hterm⟩ | ⟨e, hfails⟩
    · cases hbinary : readBinary? rest with
      | none => exact .inl ⟨_, _, .last hterm (readBinary?_eq_none_iff.mp hbinary)⟩
      | some read =>
        obtain ⟨op, middle⟩ := read
        obtain ⟨token, rfl, hjoins⟩ := readBinary?_eq_some hbinary
        have hshorter : middle.length < tokens.length :=
          Nat.lt_of_succ_lt (length_termOf_lt hterm.termOf_eq)
        rcases ih middle.length hshorter middle rfl with ⟨chain, rest, hchain⟩ | ⟨e, hfails⟩
        · exact .inl ⟨_, _, .joined hterm hjoins hchain⟩
        · exact .inr ⟨e, .joined hterm hjoins hfails⟩
    · exact .inr ⟨e, .term hfails⟩

end BuildScript.Expr
