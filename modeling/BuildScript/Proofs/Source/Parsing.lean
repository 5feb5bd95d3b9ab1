import BuildScript.Proofs.Expr.Grammar
import BuildScript.Proofs.Expr.Sequences
import BuildScript.Proofs.Source.Tokens

/-!
The tokens of source text are parsed as the statement that was written. Each part of an expression is
an operand in parentheses, so it is read on its own whatever follows, and an expression without
parentheses around it is followed by nothing or by what ends it.
-/

namespace BuildScript

namespace Expr

/-- The tokens end an expression. -/
def Ends (tokens : List Token) : Prop :=
  ∀ token ∈ tokens.head?, token.kind = .separator .parenClose ∨
    token.kind = .separator .bracketClose ∨ token.kind = .separator .comma

namespace Ends

variable {tokens : List Token} {token : Token}

theorem mark {separator : Separator}
    (h : separator = .parenClose ∨ separator = .bracketClose ∨ separator = .comma)
    (tokens : List Token) : Ends (separator.mark false :: tokens) := by
  rintro _ ⟨⟩
  rcases h with rfl | rfl | rfl
  · exact .inl rfl
  · exact .inr (.inl rfl)
  · exact .inr (.inr rfl)

theorem separator (h : Ends tokens) (hmem : token ∈ tokens.head?) :
    ∃ separator, token.kind = .separator separator ∧ separator ≠ .parenOpen ∧
      separator ≠ .bracketOpen := by
  rcases h token hmem with hkind | hkind | hkind <;> exact ⟨_, hkind, nofun, nofun⟩

theorem endsOperand (h : Ends tokens) : ∀ token ∈ tokens.head?, EndsOperand token := by
  intro token hmem
  obtain ⟨separator, hkind, hparen, hbracket⟩ := h.separator hmem
  unfold EndsOperand
  rw [hkind]
  exact ⟨fun heq => hparen (TokenKind.separator.inj heq),
    fun heq => hbracket (TokenKind.separator.inj heq), nofun⟩

theorem not_joins (h : Ends tokens) : ∀ token ∈ tokens.head?, ∀ op, ¬Joins token op := by
  rintro token hmem op ⟨hkind, -⟩
  obtain ⟨separator, hseparator, -⟩ := h.separator hmem
  rw [hseparator] at hkind
  cases hkind

end Ends

variable {decimal : Float32 → Decimal} {tokens rest : List Token} {expr : Expr}

/-- Only a member operator goes on with the operand before it. -/
theorem endsOperand_binary {op : Operator} (h : op.isBinary = true) (text : String) (spaced : Bool) :
    EndsOperand ⟨.operator op, text, spaced⟩ := by
  refine ⟨?_, ?_, ?_⟩ <;> intro hkind <;> cases hkind
  cases h

/-- An operand alone is an expression. -/
theorem expressionOf_operand (h : operandOf tokens = .ok (expr, rest)) (hends : Ends rest) :
    expressionOf tokens = .ok (expr, rest) :=
  (ChainAt.last (.operand h) hends.not_joins).expressionOf_eq

/-- The tokens are read as the expression before whatever ends it. -/
def Reads (tokens : List Token) (expr : Expr) : Prop :=
  ∀ rest, Ends rest → expressionOf (tokens ++ rest) = .ok (expr, rest)

namespace Reads

/-- What is read as one operand is read as an expression. -/
theorem of_operand (h : ∀ rest, Ends rest → operandOf (tokens ++ rest) = .ok (expr, rest)) :
    Reads tokens expr := fun rest hrest => expressionOf_operand (h rest hrest) hrest

/-- In parentheses it is an operand that suffixes may follow. -/
theorem operandOf (h : Reads tokens expr) (spaced : Bool) (rest : List Token) :
    operandOf (enclosed spaced tokens ++ rest) = suffixesOf expr rest := by
  have hinner := h (Separator.parenClose.mark false :: rest) (.mark (.inl rfl) rest)
  rw [operandOf_eq, enclosed, List.cons_append, List.append_assoc, primaryOf_paren rfl]
  rw [List.singleton_append, hinner]
  rfl

theorem operand (h : Reads tokens expr) (spaced : Bool)
    (hrest : ∀ token ∈ rest.head?, EndsOperand token) :
    Expr.operandOf (enclosed spaced tokens ++ rest) = .ok (expr, rest) := by
  rw [h.operandOf, suffixesOf_end expr hrest]

theorem enclosed (h : Reads tokens expr) (spaced : Bool) : Reads (enclosed spaced tokens) expr :=
  .of_operand fun _ hrest => h.operand spaced hrest.endsOperand

end Reads

/-- The last of a list of expressions, before the separator that ends the list. -/
theorem listed_last (close : Separator) (last : Expr) (rest : List Token) :
    separated close (listedTokens decimal [last]) ++ rest =
      BuildScript.enclosed false (last.tokens decimal false) ++ close.mark false :: rest := by
  rw [listedTokens, listedTokens, separated, List.append_assoc, List.singleton_append]

/-- One of a list of expressions that others follow. -/
theorem listed_cons (close : Separator) (first : Expr) {others : List Expr} (h : others ≠ [])
    (rest : List Token) :
    separated close (listedTokens decimal (first :: others)) ++ rest =
      BuildScript.enclosed false (first.tokens decimal false) ++
        Separator.comma.mark false :: (separated close (listedTokens decimal others) ++ rest) := by
  have hlists : listedTokens decimal others ≠ [] := by
    obtain ⟨second, others, rfl⟩ := List.exists_cons_of_ne_nil h
    rw [listedTokens]
    exact List.cons_ne_nil _ _
  rw [listedTokens, separated_cons _ _ hlists, List.append_assoc, List.cons_append]

/-- A list of expressions begins with a parenthesis. -/
theorem head?_listed (close : Separator) {exprs : List Expr} (h : exprs ≠ []) (rest : List Token) :
    (separated close (listedTokens decimal exprs) ++ rest).head? =
      some (Separator.parenOpen.mark false) := by
  obtain ⟨first, others, rfl⟩ := List.exists_cons_of_ne_nil h
  rw [listedTokens]
  obtain ⟨more, hseparated⟩ := exists_separated close
    (BuildScript.enclosed false (first.tokens decimal false)) (listedTokens decimal others)
  rw [hseparated]
  rfl

section Lists

variable {exprs : List Expr} (h : ∀ expr ∈ exprs, Reads (expr.tokens decimal false) expr)
include h

/-- Elements are read up to their closing bracket. -/
theorem elementsOf_listed (hne : exprs ≠ []) (rest : List Token) :
    elementsOf (separated .bracketClose (listedTokens decimal exprs) ++ rest) =
      .ok (exprs, rest) := by
  induction exprs with
  | nil => exact absurd rfl hne
  | cons first others ih =>
    have hfirst := (h first List.mem_cons_self).enclosed false
    cases others with
    | nil =>
      rw [listed_last, elementsOf_eq, hfirst _ (.mark (.inr (.inl rfl)) rest)]
      rfl
    | cons second others =>
      have hothers := ih (fun expr hexpr => h expr (List.mem_cons_of_mem _ hexpr))
        (List.cons_ne_nil _ _)
      rw [listed_cons _ _ (List.cons_ne_nil _ _), elementsOf_eq,
        hfirst _ (.mark (.inr (.inr rfl)) _)]
      dsimp only [bind, Except.bind, Separator.mark]
      rw [hothers]
      rfl

theorem argumentsFromOf_listed (hne : exprs ≠ []) (position : Nat) (rest : List Token) :
    argumentsFromOf position (separated .parenClose (listedTokens decimal exprs) ++ rest) =
      .ok (exprs, rest) := by
  induction exprs generalizing position with
  | nil => exact absurd rfl hne
  | cons first others ih =>
    have hfirst := (h first List.mem_cons_self).enclosed false
    cases others with
    | nil =>
      rw [listed_last, argumentsFromOf_eq, hfirst _ (.mark (.inl rfl) rest)]
      rfl
    | cons second others =>
      have hothers := ih (fun expr hexpr => h expr (List.mem_cons_of_mem _ hexpr))
        (List.cons_ne_nil _ _) (position + 1)
      rw [listed_cons _ _ (List.cons_ne_nil _ _), argumentsFromOf_eq,
        hfirst _ (.mark (.inr (.inr rfl)) _)]
      dsimp only [bind, Except.bind, Separator.mark]
      rw [hothers]
      rfl

/-- Arguments are read up to their closing parenthesis. -/
theorem argumentsOf_listed (rest : List Token) :
    argumentsOf (separated .parenClose (listedTokens decimal exprs) ++ rest) = .ok (exprs, rest) := by
  cases exprs with
  | nil =>
    rw [listedTokens, separated]
    exact argumentsOf_none rfl rest
  | cons first others =>
    have hne : first :: others ≠ [] := List.cons_ne_nil _ _
    rw [argumentsOf_some, argumentsFromOf_listed h hne]
    rw [head?_listed _ hne]
    rintro _ ⟨⟩ hkind
    cases hkind

end Lists

end Expr

namespace Reader

/-- No brackets follow a type. -/
theorem typeSuffix_end (base : DataType) {rest : List Token}
    (h : ∀ token ∈ rest.head?, token.kind ≠ .separator .bracketOpen) :
    typeSuffix base rest = (base, rest) := by
  unfold typeSuffix
  split
  · exact absurd rfl (h _ rfl)
  · rfl

theorem typeSuffix_name (base : DataType) (name : String) (rest : List Token) :
    typeSuffix base (⟨.identifier name, name, true⟩ :: rest) =
      (base, ⟨.identifier name, name, true⟩ :: rest) := by
  refine typeSuffix_end base ?_
  rintro _ ⟨⟩ hkind
  cases hkind

end Reader

namespace DataType

theorem typeOfName_keyword {type : DataType} (h : ofKeyword? type.text = some type) :
    Reader.typeOfName type.text = type := by
  rw [Reader.typeOfName, h]
  rfl

theorem typeOfName_object {className : String} (hname : IsName className)
    (hfree : ofKeyword? className = none) :
    Reader.typeOfName (object className).text = object className := by
  rw [text_object hname, Reader.typeOfName, hfree]
  rfl

theorem typeOfName_ne_array {name : String} {element : DataType} :
    Reader.typeOfName name ≠ .array element := by
  unfold Reader.typeOfName
  cases hkeyword : ofKeyword? name with
  | none => nofun
  | some type =>
    rintro rfl
    exact ofKeyword?_ne_array hkeyword

/-- A type begins with a name, and brackets follow that make the type of it. -/
theorem Writable.tokens_cons {type : DataType} (h : type.Writable) (spaced : Bool) :
    ∃ name first tail, type.tokens spaced = first :: tail ∧ first.kind = .identifier name ∧
      (∀ token ∈ tail.head?, token.kind = .separator .bracketOpen) ∧
        ∀ rest, Reader.typeSuffix (Reader.typeOfName name) (tail ++ rest) =
          Reader.typeSuffix type rest := by
  induction h with
  | keyword hkeyword =>
    refine ⟨_, _, [], tokens_keyword hkeyword spaced, rfl, nofun, fun rest => ?_⟩
    rw [typeOfName_keyword hkeyword]
    rfl
  | @object className hname hfree =>
    refine ⟨_, _, [], rfl, rfl, nofun, fun rest => ?_⟩
    rw [typeOfName_object hname hfree]
    rfl
  | @array element h ih =>
    obtain ⟨name, first, tail, htokens, hkind, htail, hsuffix⟩ := ih
    refine ⟨name, first, tail ++ [Separator.bracketOpen.mark false, Separator.bracketClose.mark false],
      ?_, hkind, ?_, ?_⟩
    · rw [DataType.tokens, htokens, List.cons_append]
    · cases tail with
      | nil =>
        rintro _ ⟨⟩
        rfl
      | cons token tail =>
        rintro _ ⟨⟩
        exact htail _ rfl
    · intro rest
      rw [List.append_assoc, hsuffix]
      rfl

theorem Writable.type_eq {type : DataType} (h : type.Writable) (spaced : Bool) (rest : List Token) :
    Reader.type (type.tokens spaced ++ rest) = .ok (Reader.typeSuffix type rest) := by
  obtain ⟨name, ⟨kind, text, spaced'⟩, tail, htokens, hkind, -, hsuffix⟩ := h.tokens_cons spaced
  cases hkind
  rw [htokens]
  exact congrArg Except.ok (hsuffix rest)

end DataType

namespace Expr

variable {decimal : Float32 → Decimal}

/-- A name alone is not the type of a declaration. -/
theorem readName_end {name : String} {rest : List Token} (h : Ends rest) :
    readName name rest = .ok (.identifier name, rest) := by
  have hbracket : ∀ token ∈ rest.head?, token.kind ≠ .separator .bracketOpen :=
    fun token hmem => (h.endsOperand token hmem).2.1
  unfold readName
  rw [Reader.typeSuffix_end _ hbracket]
  split
  · rename_i heq
    cases heq
    obtain ⟨separator, hkind, -⟩ := h.separator rfl
    cases hkind
  · rename_i heq
    exact absurd (Prod.mk.inj heq).1 DataType.typeOfName_ne_array
  · rfl

/-- A type and a name are a declaration. -/
theorem primaryOf_declare {type : DataType} (htype : type.Writable) (name : String)
    (spaced : Bool) (rest : List Token) :
    primaryOf (type.tokens spaced ++ ⟨.identifier name, name, true⟩ :: rest) =
      .ok (.declare type name, rest) := by
  obtain ⟨base, first, tail, htokens, hkind, htail, hsuffix⟩ := htype.tokens_cons spaced
  have hparen : ∀ token ∈ (tail ++ ⟨.identifier name, name, true⟩ :: rest).head?,
      token.kind ≠ .separator .parenOpen := by
    cases tail with
    | nil =>
      rintro _ ⟨⟩ hparen
      cases hparen
    | cons token tail =>
      rintro _ ⟨⟩ hparen
      rw [htail _ rfl] at hparen
      cases hparen
  rw [htokens, List.cons_append, primaryOf_name hkind hparen, readName, hsuffix,
    Reader.typeSuffix_name]

theorem signOf?_lexed {op : Operator} (h : op = .not ∨ op = .negate) (text : String)
    (spaced : Bool) : signOf? ⟨.operator op.lexed, text, spaced⟩ = some op := by
  rcases h with rfl | rfl <;> rfl

/-- The tokens of an expression are read as the expression. -/
theorem Writable.reads {expr : Expr} (h : expr.Writable decimal) (spaced : Bool) :
    Reads (expr.tokens decimal spaced) expr := by
  induction h generalizing spaced with
  | bool | int | float | string =>
    refine .of_operand fun rest hrest => ?_
    rw [tokens, List.singleton_append, operandOf_eq, primaryOf_literal rfl]
    exact suffixesOf_end _ hrest.endsOperand
  | @identifier name hname =>
    refine .of_operand fun rest hrest => ?_
    rw [tokens, List.singleton_append, operandOf_eq, primaryOf_name rfl, readName_end hrest]
    · exact suffixesOf_end _ hrest.endsOperand
    · exact fun token hmem => (hrest.endsOperand token hmem).1
  | ownMember hname =>
    refine .of_operand fun rest hrest => ?_
    rw [tokens, List.singleton_append, operandOf_eq, primaryOf_ownMember rfl]
    exact suffixesOf_end _ hrest.endsOperand
  | declare htype hname =>
    refine .of_operand fun rest hrest => ?_
    rw [tokens, List.append_assoc, List.singleton_append, operandOf_eq, primaryOf_declare htype]
    exact suffixesOf_end _ hrest.endsOperand
  | @arrayLiteral elements h ih =>
    refine .of_operand fun rest hrest => ?_
    have hprimary : primaryOf (Separator.bracketOpen.mark spaced ::
        (separated .bracketClose (listedTokens decimal elements) ++ rest)) =
          .ok (.arrayLiteral elements, rest) := by
      by_cases hne : elements = []
      · subst hne
        rw [listedTokens, separated]
        exact primaryOf_empty rfl rfl rest
      · rw [primaryOf_array rfl, elementsOf_listed (fun element hmem => ih element hmem false) hne]
        · rfl
        · rw [head?_listed _ hne]
          rintro _ ⟨⟩ hkind
          cases hkind
    rw [tokens, List.cons_append, operandOf_eq, hprimary]
    exact suffixesOf_end _ hrest.endsOperand
  | @unary op operand hop h ih =>
    intro rest hrest
    have hoperand := (ih false).operand false hrest.endsOperand
    have hterm := TermAt.sign (signOf?_lexed hop op.symbol spaced) (.operand hoperand)
    rw [tokens]
    exact (ChainAt.last hterm hrest.not_joins).expressionOf_eq
  | @binary op left right hop hleft hright ihl ihr =>
    -- A chain of two operands in parentheses has one operator, so there is nothing to group.
    intro rest hrest
    have hmiddle : ∀ token ∈ (⟨.operator op, op.symbol, false⟩ ::
        (BuildScript.enclosed false (right.tokens decimal false) ++ rest)).head?,
          EndsOperand token := by
      rintro _ ⟨⟩
      exact endsOperand_binary hop _ _
    have hl := (ihl false).operand spaced hmiddle
    have hr := (ihr false).operand false hrest.endsOperand
    have hchain := ChainAt.joined (.operand hl) ⟨rfl, hop⟩
      (.last (.operand hr) hrest.not_joins)
    rw [tokens]
    · rw [List.append_assoc]
      exact hchain.expressionOf_eq
    · exact Operator.ne_arrayAccess hop
  | index harray hindex iha ihi =>
    refine .of_operand fun rest hrest => ?_
    have hi := (ihi false).enclosed false _ (.mark (.inr (.inl rfl)) rest)
    rw [tokens, List.append_assoc, (iha false).operandOf, List.cons_append, List.append_assoc,
      suffixesOf_index rfl, List.singleton_append, hi]
    exact suffixesOf_end _ hrest.endsOperand
  | member hobject hname ih =>
    refine .of_operand fun rest hrest => ?_
    rw [tokens, List.append_assoc, (ih false).operandOf, List.cons_append, suffixesOf_member rfl]
    exact suffixesOf_end _ hrest.endsOperand
  | call hcallee h ih iha =>
    refine .of_operand fun rest hrest => ?_
    rw [tokens, List.append_assoc, (ih false).operandOf, List.cons_append, suffixesOf_call rfl,
      argumentsOf_listed fun argument hmem => iha argument hmem false]
    exact suffixesOf_end _ hrest.endsOperand
  | cast htype h ih =>
    refine .of_operand fun rest hrest => ?_
    rw [tokens, List.cons_append, List.cons_append, operandOf_eq, primaryOf_cast rfl htype rfl,
      argumentsOf_listed fun argument hmem => ih argument hmem false]
    exact suffixesOf_end _ hrest.endsOperand

end Expr

end BuildScript
