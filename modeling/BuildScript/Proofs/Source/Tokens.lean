import BuildScript.Proofs.Source.Printing
import BuildScript.Proofs.Token.Rendering

/-!
The tokens of source text. What a statement is written as is a list of tokens, written one after the
other. `spaced` is whether white space, or the start of the line, comes before the first of them.
-/

namespace BuildScript

def Separator.mark (separator : Separator) (spaced : Bool) : Token :=
  ⟨.separator separator, separator.char.toString, spaced⟩

/-- The operator that an operator before an operand is lexed as. -/
def Operator.lexed : Operator → Operator
  | .negate => .subtract
  | op => op

def DataType.tokens (spaced : Bool) : DataType → List Token
  | .array element =>
    element.tokens spaced ++ [Separator.bracketOpen.mark false, Separator.bracketClose.mark false]
  | type => [⟨.identifier type.text, type.text, spaced⟩]

/-- Tokens in parentheses. -/
def enclosed (spaced : Bool) (tokens : List Token) : List Token :=
  Separator.parenOpen.mark spaced :: (tokens ++ [Separator.parenClose.mark false])

/-- Lists of tokens with commas between them, and the separator that ends them. -/
def separated (close : Separator) : List (List Token) → List Token
  | [] => [close.mark false]
  | [last] => last ++ [close.mark false]
  | first :: others => first ++ Separator.comma.mark false :: separated close others

namespace Expr

variable (decimal : Float32 → Decimal)

mutual

def tokens (spaced : Bool) : Expr → List Token
  | .literal value => [⟨.literal value, value.source decimal, spaced⟩]
  | .identifier name => [⟨.identifier name, name, spaced⟩]
  | .ownMember name => [⟨.ownMember name, "." ++ name, true⟩]
  | .declare type name => type.tokens spaced ++ [⟨.identifier name, name, true⟩]
  | .arrayLiteral elements =>
    Separator.bracketOpen.mark spaced :: separated .bracketClose (listedTokens elements)
  | .unary op operand =>
    ⟨.operator op.lexed, op.symbol, spaced⟩ :: enclosed false (operand.tokens false)
  | .binary .arrayAccess array index =>
    enclosed spaced (array.tokens false) ++ Separator.bracketOpen.mark false ::
      (enclosed false (index.tokens false) ++ [Separator.bracketClose.mark false])
  | .binary op left right =>
    enclosed spaced (left.tokens false) ++ ⟨.operator op, op.symbol, false⟩ ::
      enclosed false (right.tokens false)
  | .member object name =>
    enclosed spaced (object.tokens false) ++
      [⟨.operator .member, ".", false⟩, ⟨.identifier name, name, false⟩]
  | .call callee arguments =>
    enclosed spaced (callee.tokens false) ++ Separator.parenOpen.mark false ::
      separated .parenClose (listedTokens arguments)
  | .cast type arguments =>
    ⟨.identifier type.text, type.text, spaced⟩ :: Separator.parenOpen.mark false ::
      separated .parenClose (listedTokens arguments)

def listedTokens : List Expr → List (List Token)
  | [] => []
  | expr :: others => enclosed false (expr.tokens false) :: listedTokens others

end

end Expr

def Parameter.tokens (param : Parameter) : List Token :=
  param.type.tokens false ++ (if param.byReference then
      [⟨.operator .bitAnd, "&", true⟩, ⟨.identifier param.name, param.name, false⟩]
    else [⟨.identifier param.name, param.name, true⟩])

def Header.tokens : Header → List Token
  | .function ⟨name, returnType, params⟩ =>
    returnType.tokens true ++ ⟨.identifier name, name, true⟩ :: Separator.parenOpen.mark false ::
      separated .parenClose (params.map Parameter.tokens)
  | .classNamed name => [⟨.keyword .classWord, "class", true⟩, ⟨.identifier name, name, true⟩]
  | .procedure name =>
    [⟨.keyword .procedureWord, "procedure", true⟩, ⟨.identifier name, name, true⟩]

def Statement.tokens (decimal : Float32 → Decimal) : Statement → List Token
  | .expression expr => expr.tokens decimal true
  | .declaration header => header.tokens

namespace Token

theorem chars_append (tokens others : List Token) :
    chars (tokens ++ others) = chars tokens ++ chars others := List.flatMap_append

theorem chars_mark (separator : Separator) (rest : List Token) :
    chars (separator.mark false :: rest) = separator.char :: chars rest := by
  rw [chars_cons]
  simp [written, Separator.mark]

end Token

open Token (chars chars_append chars_cons chars_mark)

theorem chars_enclosed (tokens : List Token) :
    chars (enclosed false tokens) = '(' :: (chars tokens ++ [')']) := by
  rw [enclosed, chars_mark, chars_append, chars_mark]
  rfl

/-- A type that is a keyword is written as one token. -/
theorem DataType.tokens_keyword {type : DataType} (h : ofKeyword? type.text = some type)
    (spaced : Bool) : type.tokens spaced = [⟨.identifier type.text, type.text, spaced⟩] := by
  rw [DataType.tokens]
  rintro element rfl
  exact ofKeyword?_ne_array h

theorem DataType.chars_tokens (type : DataType) : chars (type.tokens false) = type.text.toList := by
  induction type with
  | array element ih =>
    rw [DataType.tokens, chars_append, ih, DataType.text, String.toList_append, chars_mark, chars_mark]
    rfl
  | _ => simp [DataType.tokens, chars, Token.written]

theorem separated_cons (close : Separator) (first : List Token) {others : List (List Token)}
    (h : others ≠ []) : separated close (first :: others) =
      first ++ Separator.comma.mark false :: separated close others := by
  rw [separated]
  exact h

/-- The first list comes first. -/
theorem exists_separated (close : Separator) (first : List Token) (others : List (List Token)) :
    ∃ more, separated close (first :: others) = first ++ more := by
  cases others with
  | nil => exact ⟨_, by rw [separated]⟩
  | cons second others => exact ⟨_, separated_cons _ _ (List.cons_ne_nil _ _)⟩

/-- Text with commas between is the text of the separated tokens. -/
theorem chars_separated (close : Separator) {lists : List (List Token)} {texts : List String}
    (h : List.Forall₂ (fun tokens text => chars tokens = text.toList) lists texts) :
    chars (separated close lists) = (",".intercalate texts).toList ++ [close.char] := by
  induction h with
  | nil =>
    rw [separated, chars_mark]
    rfl
  | @cons first text lists texts hfirst hothers ih =>
    cases hothers with
    | nil =>
      rw [separated, chars_append, hfirst, chars_mark]
      simp [chars]
    | cons =>
      rw [separated_cons _ _ (List.cons_ne_nil _ _), chars_append, hfirst, chars_mark, ih,
        String.intercalate_cons_cons]
      simp [Separator.char]

theorem Operator.ne_arrayAccess {op : Operator} (h : op.isBinary = true) : op ≠ .arrayAccess := by
  rintro rfl
  cases h

section Texts

variable {decimal : Float32 → Decimal} {expr : Expr}

theorem Expr.chars_listedTokens {exprs : List Expr}
    (h : ∀ expr ∈ exprs, chars (expr.tokens decimal false) = (expr.source decimal).toList) :
    List.Forall₂ (fun tokens text => chars tokens = text.toList) (listedTokens decimal exprs)
      (enclosedSources decimal exprs) := by
  induction exprs with
  | nil =>
    rw [listedTokens, enclosedSources]
    exact .nil
  | cons first others ih =>
    rw [listedTokens, enclosedSources]
    refine .cons ?_ (ih fun expr hexpr => h expr (List.mem_cons_of_mem _ hexpr))
    rw [chars_enclosed, h first List.mem_cons_self]
    simp

/-- The tokens of an expression have its text. -/
theorem Expr.Writable.chars_tokens (h : expr.Writable decimal) :
    chars (expr.tokens decimal false) = (expr.source decimal).toList := by
  induction h with
  | bool | int | float | string | identifier | ownMember =>
    simp [tokens, source, chars, Token.written]
  | declare =>
    rw [tokens, chars_append, DataType.chars_tokens, source]
    simp [chars, Token.written]
  | arrayLiteral h ih =>
    rw [tokens, chars_mark, chars_separated _ (chars_listedTokens ih), source]
    simp [Separator.char]
  | unary hop h ih =>
    rw [tokens, chars_cons, chars_enclosed, ih, source]
    simp [Token.written]
  | binary hop hleft hright ihl ihr =>
    rw [tokens, chars_append, chars_enclosed, chars_cons, chars_enclosed, ihl, ihr, source]
    · simp [Token.written]
    · exact Operator.ne_arrayAccess hop
    · exact Operator.ne_arrayAccess hop
  | index harray hindex iha ihi =>
    rw [tokens, chars_append, chars_enclosed, chars_mark, chars_append, chars_enclosed, iha, ihi,
      chars_mark, source]
    simp [Separator.char, chars]
  | member hobject hname ih =>
    rw [tokens, chars_append, chars_enclosed, ih, source]
    simp [chars, Token.written]
  | call hcallee h ih iha =>
    rw [tokens, chars_append, chars_enclosed, chars_mark,
      chars_separated _ (chars_listedTokens iha), ih, source]
    simp [Separator.char]
  | cast htype h ih =>
    rw [tokens, chars_cons, chars_mark, chars_separated _ (chars_listedTokens ih), source]
    simp [Separator.char, Token.written]

theorem DataType.chars_spaced (type : DataType) :
    chars (type.tokens true) = ' ' :: chars (type.tokens false) := by
  induction type with
  | array element ih =>
    rw [DataType.tokens, DataType.tokens, chars_append, chars_append, ih]
    rfl
  | _ => rfl

/-- A spaced expression has a blank in front. Without it the text is the same, but a member of the
receiver keeps its own. -/
theorem Expr.chars_spaced (expr : Expr) : ∃ text, chars (expr.tokens decimal true) = ' ' :: text ∧
    (chars (expr.tokens decimal false) = text ∨ chars (expr.tokens decimal false) = ' ' :: text) := by
  cases expr with
  | ownMember => exact ⟨_, rfl, .inr rfl⟩
  | declare type name =>
    rw [tokens, tokens, chars_append, chars_append, DataType.chars_spaced]
    exact ⟨_, rfl, .inl rfl⟩
  | binary op left right => cases op <;> exact ⟨_, rfl, .inl rfl⟩
  | _ => exact ⟨_, rfl, .inl rfl⟩

/-- At the start of a line it makes no difference. -/
theorem Expr.scan_spaced (expr : Expr) :
    Lexeme.scan true (chars (expr.tokens decimal true)) =
      Lexeme.scan true (chars (expr.tokens decimal false)) := by
  obtain ⟨text, hspaced, hsame | hsame⟩ := @chars_spaced decimal expr
  · rw [hspaced, hsame, Lexeme.scan_blank]
  · rw [hspaced, hsame]

theorem Parameter.chars_tokens (param : Parameter) :
    chars param.tokens = param.source.toList := by
  obtain ⟨type, name, byReference⟩ := param
  rw [Parameter.tokens, chars_append, DataType.chars_tokens, Parameter.source]
  cases byReference <;> simp [chars, Token.written]

theorem Header.chars_tokens (header : Header) : chars header.tokens = ' ' :: header.source.toList := by
  cases header with
  | function signature =>
    obtain ⟨name, returnType, params⟩ := signature
    have hparams : List.Forall₂ (fun tokens text => chars tokens = text.toList)
        (params.map Parameter.tokens) (params.map Parameter.source) := by
      induction params with
      | nil => exact .nil
      | cons param others ih => exact .cons param.chars_tokens ih
    rw [Header.tokens, chars_append, DataType.chars_spaced, DataType.chars_tokens, chars_cons,
      chars_mark, chars_separated _ hparams, Header.source]
    simp [Token.written, Separator.char]
  | classNamed name | procedure name => simp [Header.tokens, Header.source, chars, Token.written]

/-- The tokens of a statement have its text. -/
theorem Statement.Writable.scan_source {statement : Statement} (h : statement.Writable decimal) :
    Lexeme.scan true (statement.source decimal).toList =
      Lexeme.scan true (chars (statement.tokens decimal)) := by
  cases h with
  | expression h =>
    rw [Statement.source, Statement.tokens, Expr.scan_spaced, h.chars_tokens]
  | declaration h =>
    rw [Statement.source, Statement.tokens, Header.chars_tokens, Lexeme.scan_blank]

end Texts

end BuildScript
