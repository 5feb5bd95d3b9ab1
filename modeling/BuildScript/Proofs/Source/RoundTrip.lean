import BuildScript.Proofs.Source.Lexing
import BuildScript.Proofs.Source.Parsing

/-!
Reading back source text. The line that a statement is written on is lexed as its tokens, and they
are parsed as the statement: an expression does not begin like the header of a function, and a header
is read piece by piece.
-/

namespace BuildScript

variable {decimal : Float32 → Decimal}

namespace Statement

/-- No expression begins like the header of a function. -/
theorem startsSignature_expr {expr : Expr} (h : expr.Writable decimal) (spaced : Bool) :
    startsSignature (expr.tokens decimal spaced) = false := by
  cases h with
  | bool | int | float | string | ownMember | arrayLiteral | unary | index | member | call =>
    rw [Expr.tokens]
    rfl
  | @binary op left right hop =>
    rw [Expr.tokens]
    · rfl
    · exact Operator.ne_arrayAccess hop
  | identifier | cast =>
    rw [Expr.tokens]
    rfl
  | declare htype hname =>
    rw [Expr.tokens, startsSignature, htype.type_eq, Reader.typeSuffix_name]
    rfl

theorem expressionOf_keyword {token : Token} {keyword : Keyword} (h : token.kind = .keyword keyword)
    (rest : List Token) :
    Expr.expressionOf (token :: rest) = .error (.unexpectedToken token.text) := by
  obtain ⟨kind, text, spaced⟩ := token
  cases h
  rfl

theorem parse_expr {expr : Expr} (h : expr.Writable decimal) :
    parse (expr.tokens decimal true) = .ok (.expression expr) := by
  have hread : Expr.expressionOf (expr.tokens decimal true) = .ok (expr, []) := by
    have hreads := h.reads true [] nofun
    rw [List.append_nil] at hreads
    exact hreads
  have hstart := startsSignature_expr h true
  have hparse : Expr.parse (expr.tokens decimal true) = .ok expr := by
    rw [Expr.parse_eq, hread]
    rfl
  generalize expr.tokens decimal true = tokens at *
  unfold parse
  split
  · rw [expressionOf_keyword rfl] at hread
    cases hread
  · rw [expressionOf_keyword rfl] at hread
    cases hread
  · rw [hstart, hparse]
    rfl

theorem readParameter_tokens {param : Parameter} (h : param.Writable) (rest : List Token) :
    readParameter (param.tokens ++ rest) = .ok (param, rest) := by
  obtain ⟨type, name, byReference⟩ := param
  obtain ⟨htype, hname⟩ := h
  unfold readParameter Parameter.tokens
  rw [List.append_assoc, htype.type_eq, Reader.typeSuffix_end]
  · cases byReference <;> rfl
  · cases byReference <;> rintro _ ⟨⟩ hkind <;> cases hkind

/-- Parameters are read up to the closing parenthesis if there is fuel for each. -/
theorem readParameters_tokens {params : List Parameter} (h : ∀ param ∈ params, param.Writable)
    (hne : params ≠ []) {fuel : Nat} (hfuel : params.length ≤ fuel) :
    readParameters fuel (separated .parenClose (params.map Parameter.tokens)) = .ok (params, []) := by
  induction params generalizing fuel with
  | nil => exact absurd rfl hne
  | cons param others ih =>
    have hfirst := readParameter_tokens (h param List.mem_cons_self)
    cases fuel with
    | zero => cases hfuel
    | succ fuel =>
      cases others with
      | nil =>
        rw [List.map_cons, List.map_nil, separated, readParameters, hfirst]
        rfl
      | cons second others =>
        have hothers := ih (fun param hmem => h param (List.mem_cons_of_mem _ hmem))
          (List.cons_ne_nil _ _) (Nat.le_of_succ_le_succ hfuel)
        have hlists : (second :: others).map Parameter.tokens ≠ [] := List.cons_ne_nil _ _
        rw [List.map_cons, separated_cons _ _ hlists, readParameters, hfirst]
        dsimp only [bind, Except.bind, Separator.mark]
        rw [hothers]
        rfl

theorem length_le_separated (close : Separator) (lists : List (List Token)) :
    lists.length ≤ (separated close lists).length := by
  induction lists with
  | nil => exact Nat.zero_le _
  | cons first others ih =>
    cases others with
    | nil =>
      rw [separated]
      simp
    | cons second others =>
      rw [separated_cons _ _ (List.cons_ne_nil _ _)]
      simp only [List.length_append, List.length_cons] at ih ⊢
      omega

/-- The first parameter begins with the name of its type. -/
theorem separated_params {params : List Parameter} (h : ∀ param ∈ params, param.Writable)
    (hne : params ≠ []) : ∃ name first rest,
      separated .parenClose (params.map Parameter.tokens) = first :: rest ∧
        first.kind = .identifier name := by
  obtain ⟨param, others, rfl⟩ := List.exists_cons_of_ne_nil hne
  obtain ⟨name, first, tail, htokens, hkind, -⟩ :=
    (h param List.mem_cons_self).type.tokens_cons false
  obtain ⟨more, hseparated⟩ :=
    exists_separated .parenClose param.tokens (others.map Parameter.tokens)
  rw [List.map_cons, hseparated, Parameter.tokens, htokens, List.cons_append, List.cons_append]
  exact ⟨name, first, _, rfl, hkind⟩

theorem parseSignature_tokens {name : String} {returnType : DataType} {params : List Parameter}
    (htype : returnType.Writable) (hparams : ∀ param ∈ params, param.Writable) :
    parseSignature (Header.function ⟨name, returnType, params⟩).tokens =
      .ok ⟨name, returnType, params⟩ := by
  rw [parseSignature, Header.tokens, htype.type_eq, Reader.typeSuffix_name]
  dsimp only [bind, Except.bind, Reader.identifier, List.tail_cons]
  by_cases hne : params = []
  · subst hne
    rfl
  · obtain ⟨base, ⟨kind, text, spaced⟩, rest, hseparated, hkind⟩ := separated_params hparams hne
    have hlength := length_le_separated .parenClose (params.map Parameter.tokens)
    rw [List.length_map] at hlength
    have hread := readParameters_tokens hparams hne (Nat.le_succ_of_le hlength)
    cases hkind
    rw [hseparated] at hread ⊢
    dsimp only
    rw [hread]
    rfl

theorem startsSignature_function {name : String} {returnType : DataType} {params : List Parameter}
    (htype : returnType.Writable) :
    startsSignature (Header.function ⟨name, returnType, params⟩).tokens = true := by
  rw [startsSignature, Header.tokens, htype.type_eq, Reader.typeSuffix_name]
  rfl

theorem parse_header {header : Header} (h : header.Writable) :
    parse header.tokens = .ok (.declaration header) := by
  cases h with
  | @function name returnType params hname htype hparams =>
    have hstart := @startsSignature_function name returnType params htype
    have hread := @parseSignature_tokens name returnType params htype hparams
    generalize (Header.function ⟨name, returnType, params⟩).tokens = tokens at *
    unfold parse
    split
    · cases hstart
    · cases hstart
    · rw [if_pos hstart, hread]
      rfl
  | classNamed hname => rfl
  | procedure hname => rfl

/-- What a statement is written as is one line that does not go on, and the statement is read back
from it. -/
theorem source_parses {statement : Statement} (h : statement.Writable decimal) :
    ∃ tokens, Lexed.ofLine (statement.source decimal) = .ok ⟨tokens, false⟩ ∧
      parse tokens = .ok statement := by
  refine ⟨statement.tokens decimal, h.ofLine_source, ?_⟩
  cases h with
  | expression h => exact parse_expr h
  | declaration h => exact parse_header h

/-- Two and a half, as it is written. -/
def halves : Decimal := ⟨'2', [], ['5'], rfl, nofun, List.all_eq_true.mp rfl⟩

/-- A declaration that is initialised with an array. -/
def mixedArray : Statement :=
  .expression (.binary .assign (.declare (.array .void) "xs") (.arrayLiteral
    [.literal (.int Int32.minValue), .literal (.float (Single.ofDecimal 25 1)),
      .literal (.string "a\"b"), .ownMember "low"]))

/-- The minus of the least integer, the point of a float and the one of a member, and the quote in
the string are all read as they were meant. -/
theorem mixedArray_parses :
    mixedArray.source (fun _ => halves) =
        "(void[] xs)=([(-2147483648),(2.5),(\"a\\\"b\"),( .low)])" ∧
      ∃ tokens, Lexed.ofLine (mixedArray.source fun _ => halves) = .ok ⟨tokens, false⟩ ∧
        parse tokens = .ok mixedArray := by
  have hxs : IsName "xs" := ⟨⟨'x', ['s'], rfl, rfl, List.all_eq_true.mp rfl⟩, rfl⟩
  have hlow : IsName "low" := ⟨⟨'l', ['o', 'w'], rfl, rfl, List.all_eq_true.mp rfl⟩, rfl⟩
  have hvoid : DataType.Writable .void := .keyword rfl
  have hwritable : mixedArray.Writable fun _ => halves := by
    refine .expression (.binary rfl (.declare (.array hvoid) hxs) (.arrayLiteral ?_))
    simp only [List.forall_mem_cons]
    exact ⟨.int (.inr rfl), .float rfl, .string _, .ownMember hlow, nofun⟩
  exact ⟨by decide, source_parses hwritable⟩

end Statement

end BuildScript
