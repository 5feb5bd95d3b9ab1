import BuildScript.Proofs.Source.Parsing

/-!
The forms of an expression and the tokens they take. A form takes tokens off the front and looks at what
is left through the next token only, or through a pair of brackets. What is read is what the forms
take, so an expression can be taken apart token by token.
-/

namespace BuildScript.Expr

/-- The forms of the grammar, each with what it is read as. Suffixes are read as what they make of the
operand in front of them. -/
inductive Form where
  | expression (expr : Expr)
  | term (term : Term)
  | others (others : List (Operator × Term))
  | operand (expr : Expr)
  | suffixes (wrap : Expr → Expr)
  | primary (expr : Expr)
  /-- Expressions with commas between them, up to the separator that closes the list. -/
  | listed (close : Separator) (exprs : List Expr)
  | arguments (exprs : List Expr)

/-- The token is one of the brackets of an array type. -/
def IsBracket (token : Token) : Prop :=
  token.kind = .separator .bracketOpen ∨ token.kind = .separator .bracketClose

/-- The tokens make an array type of a type, whatever follows. -/
structure ArrayType (name : String) (type : DataType) (brackets : List Token) : Prop where
  isBracket : ∀ token ∈ brackets, IsBracket token
  type_eq : ∀ rest : List Token, (∀ token ∈ rest.head?, token.kind ≠ .separator .bracketOpen) →
    Reader.typeSuffix (Reader.typeOfName name) (brackets ++ rest) = (type, rest)

/-- The form takes the first tokens and leaves the second. -/
inductive Form.Takes : Form → List Token → List Token → Prop
  | expression {first others front middle rest} (hfirst : Takes (.term first) front (middle ++ rest))
    (hothers : Takes (.others others) middle rest) :
    Takes (.expression (Chain.mk first others).toExpr) (front ++ middle) rest
  | unsigned {expr front rest} (hoperand : Takes (.operand expr) front rest) :
    Takes (.term ⟨[], expr⟩) front rest
  | sign {token op term front rest} (hsign : signOf? token = some op)
    (hterm : Takes (.term term) front rest) :
    Takes (.term ⟨op :: term.prefixes, term.operand⟩) (token :: front) rest
  | noOthers {rest} (hrest : ∀ token ∈ rest.head?, ∀ op, ¬Joins token op) :
    Takes (.others []) [] rest
  | joined {token op term others front middle rest} (hjoins : Joins token op)
    (hterm : Takes (.term term) front (middle ++ rest)) (hothers : Takes (.others others) middle rest) :
    Takes (.others ((op, term) :: others)) (token :: (front ++ middle)) rest
  | operand {primary wrap front middle rest} (hprimary : Takes (.primary primary) front (middle ++ rest))
    (hwrap : Takes (.suffixes wrap) middle rest) : Takes (.operand (wrap primary)) (front ++ middle) rest
  | noSuffixes {rest} (hrest : ∀ token ∈ rest.head?, EndsOperand token) :
    Takes (.suffixes fun expr => expr) [] rest
  | call {token arguments wrap front middle rest} (htoken : token.kind = .separator .parenOpen)
    (harguments : Takes (.arguments arguments) front (middle ++ rest))
    (hwrap : Takes (.suffixes wrap) middle rest) :
    Takes (.suffixes fun expr => wrap (.call expr arguments)) (token :: (front ++ middle)) rest
  | index {token closing index wrap front middle rest} (htoken : token.kind = .separator .bracketOpen)
    (hindex : Takes (.expression index) front (closing :: (middle ++ rest)))
    (hclosing : closing.kind = .separator .bracketClose) (hwrap : Takes (.suffixes wrap) middle rest) :
    Takes (.suffixes fun expr => wrap (.binary .arrayAccess expr index))
      (token :: (front ++ closing :: middle)) rest
  | member {token word name wrap middle rest} (htoken : token.kind = .operator .member)
    (hword : word.kind = .identifier name) (hwrap : Takes (.suffixes wrap) middle rest) :
    Takes (.suffixes fun expr => wrap (.member expr name)) (token :: word :: middle) rest
  | literal {token value rest} (htoken : token.kind = .literal value) :
    Takes (.primary (.literal value)) [token] rest
  | ownMember {token name rest} (htoken : token.kind = .ownMember name) :
    Takes (.primary (.ownMember name)) [token] rest
  | name {token name rest} (htoken : token.kind = .identifier name)
    (hread : readName name rest = .ok (.identifier name, rest))
    (hcast : ∀ type, DataType.ofKeyword? name = some type →
      ∀ after ∈ rest.head?, after.kind ≠ .separator .parenOpen) :
    Takes (.primary (.identifier name)) [token] rest
  | declare {token word name declared type brackets rest} (htoken : token.kind = .identifier name)
    (htype : ArrayType name type brackets) (hword : word.kind = .identifier declared) :
    Takes (.primary (.declare type declared)) (token :: (brackets ++ [word])) rest
  | cast {token after name type arguments front rest} (htoken : token.kind = .identifier name)
    (htype : DataType.ofKeyword? name = some type) (hafter : after.kind = .separator .parenOpen)
    (harguments : Takes (.arguments arguments) front rest) :
    Takes (.primary (.cast type arguments)) (token :: after :: front) rest
  | paren {token closing inner front rest} (htoken : token.kind = .separator .parenOpen)
    (hinner : Takes (.expression inner) front (closing :: rest))
    (hclosing : closing.kind = .separator .parenClose) :
    Takes (.primary inner) (token :: (front ++ [closing])) rest
  | emptyArray {token closing rest} (htoken : token.kind = .separator .bracketOpen)
    (hclosing : closing.kind = .separator .bracketClose) :
    Takes (.primary (.arrayLiteral [])) [token, closing] rest
  | array {token elements front rest} (htoken : token.kind = .separator .bracketOpen)
    (helements : Takes (.listed .bracketClose elements) front rest) :
    Takes (.primary (.arrayLiteral elements)) (token :: front) rest
  | last {close closing expr front rest} (hexpr : Takes (.expression expr) front (closing :: rest))
    (hclosing : closing.kind = .separator close) :
    Takes (.listed close [expr]) (front ++ [closing]) rest
  | next {close comma expr exprs front middle rest}
    (hexpr : Takes (.expression expr) front (comma :: (middle ++ rest)))
    (hcomma : comma.kind = .separator .comma) (hexprs : Takes (.listed close exprs) middle rest) :
    Takes (.listed close (expr :: exprs)) (front ++ comma :: middle) rest
  | noArguments {closing rest} (hclosing : closing.kind = .separator .parenClose) :
    Takes (.arguments []) [closing] rest
  | arguments {exprs front rest} (hexprs : Takes (.listed .parenClose exprs) front rest) :
    Takes (.arguments exprs) front rest

variable {form : Form} {front rest rest' tokens : List Token} {token : Token}

section Lookahead

/-- The tokens begin with a pair of brackets. -/
def BeginsPair (tokens : List Token) : Prop :=
  ∃ first second rest, tokens = first :: second :: rest ∧ first.kind = .separator .bracketOpen ∧
    second.kind = .separator .bracketClose

theorem beginsPair_cons : BeginsPair (token :: rest) ↔ token.kind = .separator .bracketOpen ∧
    ∃ second ∈ rest.head?, second.kind = .separator .bracketClose := by
  constructor
  · rintro ⟨first, second, rest, heq, hfirst, hsecond⟩
    obtain ⟨rfl, rfl⟩ := List.cons.inj heq
    exact ⟨hfirst, second, rfl, hsecond⟩
  · rintro ⟨hfirst, second, hmem, hsecond⟩
    obtain ⟨rest, rfl⟩ := List.head?_eq_some_iff.mp hmem
    exact ⟨token, second, rest, rfl, hfirst, hsecond⟩

/-- The second tokens look like the first to a form that ends in front of them. -/
def LooksLike (rest rest' : List Token) : Prop :=
  rest'.head? = rest.head? ∧ (BeginsPair rest' ↔ BeginsPair rest)

theorem LooksLike.append (h : LooksLike rest rest') (tokens : List Token) :
    LooksLike (tokens ++ rest) (tokens ++ rest') := by
  cases tokens with
  | nil => exact h
  | cons first tokens =>
    refine ⟨rfl, ?_⟩
    rw [List.cons_append, List.cons_append, beginsPair_cons, beginsPair_cons, List.head?_append,
      List.head?_append, h.1]

theorem typeSuffix_array (element : DataType) (tokens : List Token) :
    ∃ element', (Reader.typeSuffix (.array element) tokens).1 = .array element' := by
  generalize hbase : DataType.array element = base
  fun_induction Reader.typeSuffix base tokens generalizing element with
  | case1 base text spaced text' spaced' rest ih => exact ih base rfl
  | case2 base tokens => exact ⟨element, hbase.symm⟩

theorem typeSuffix_pair (base : DataType) (h : BeginsPair rest) :
    ∃ element, (Reader.typeSuffix base rest).1 = .array element := by
  obtain ⟨⟨kind, text, spaced⟩, ⟨kind', text', spaced'⟩, rest, rfl, rfl, rfl⟩ := h
  rw [Reader.typeSuffix]
  exact typeSuffix_array base rest

theorem typeSuffix_plain (base : DataType) (h : ¬BeginsPair rest) :
    Reader.typeSuffix base rest = (base, rest) := by
  unfold Reader.typeSuffix
  split
  · exact absurd ⟨_, _, _, rfl, rfl, rfl⟩ h
  · rfl

/-- A name stands for itself if no name follows it, nor brackets that make it a type. -/
theorem readName_identifier_iff (name : String) (rest : List Token) :
    readName name rest = .ok (.identifier name, rest) ↔ ¬BeginsPair rest ∧
      ∀ token ∈ rest.head?, ∀ declared, token.kind ≠ .identifier declared := by
  constructor
  · intro h
    unfold readName at h
    split at h
    · cases h
    · cases h
    · rename_i hdeclare harray
      have hpair : ¬BeginsPair rest := fun hpair => by
        obtain ⟨element, hsuffix⟩ := typeSuffix_pair (Reader.typeOfName name) hpair
        exact harray element _ (Prod.ext hsuffix rfl)
      refine ⟨hpair, fun token hmem declared hkind => ?_⟩
      obtain ⟨others, rfl⟩ := List.head?_eq_some_iff.mp hmem
      obtain ⟨kind, text, spaced⟩ := token
      cases hkind
      exact hdeclare _ _ _ _ _ (typeSuffix_plain _ hpair)
  · rintro ⟨hpair, hname⟩
    unfold readName
    rw [typeSuffix_plain _ hpair]
    split
    · rename_i heq
      obtain ⟨-, rfl⟩ := Prod.mk.inj heq
      exact absurd rfl (hname _ rfl _)
    · rename_i heq
      exact absurd (Prod.mk.inj heq).1 DataType.typeOfName_ne_array
    · rfl

theorem Form.Takes.looksLike (h : form.Takes front rest) (hrest : LooksLike rest rest') :
    form.Takes front rest' := by
  induction h generalizing rest' with
  | expression _ _ ihfirst ihothers => exact .expression (ihfirst (hrest.append _)) (ihothers hrest)
  | unsigned _ ih => exact .unsigned (ih hrest)
  | sign hsign _ ih => exact .sign hsign (ih hrest)
  | noOthers hend => exact .noOthers (hrest.1 ▸ hend)
  | joined hjoins _ _ ihterm ihothers => exact .joined hjoins (ihterm (hrest.append _)) (ihothers hrest)
  | operand _ _ ihprimary ihwrap => exact .operand (ihprimary (hrest.append _)) (ihwrap hrest)
  | noSuffixes hend => exact .noSuffixes (hrest.1 ▸ hend)
  | call htoken _ _ iharguments ihwrap =>
    exact .call htoken (iharguments (hrest.append _)) (ihwrap hrest)
  | @index _ closing _ _ _ middle _ htoken _ hclosing _ ihindex ihwrap =>
    exact .index htoken (ihindex (hrest.append (closing :: middle))) hclosing (ihwrap hrest)
  | member htoken hword _ ih => exact .member htoken hword (ih hrest)
  | literal htoken => exact .literal htoken
  | ownMember htoken => exact .ownMember htoken
  | name htoken hread hcast =>
    refine .name htoken ?_ (hrest.1 ▸ hcast)
    rw [readName_identifier_iff, hrest.1, hrest.2]
    exact (readName_identifier_iff _ _).mp hread
  | declare htoken htype hword => exact .declare htoken htype hword
  | cast htoken htype hafter _ ih => exact .cast htoken htype hafter (ih hrest)
  | @paren _ closing _ _ _ htoken _ hclosing ih =>
    exact .paren htoken (ih (hrest.append [closing])) hclosing
  | emptyArray htoken hclosing => exact .emptyArray htoken hclosing
  | array htoken _ ih => exact .array htoken (ih hrest)
  | @last _ closing _ _ _ _ hclosing ih => exact .last (ih (hrest.append [closing])) hclosing
  | @next _ comma _ _ _ middle _ _ hcomma _ ihexpr ihexprs =>
    exact .next (ihexpr (hrest.append (comma :: middle))) hcomma (ihexprs hrest)
  | noArguments hclosing => exact .noArguments hclosing
  | arguments _ ih => exact .arguments (ih hrest)

end Lookahead

section Reading

/-- Read without a bound, the form is read off the tokens, and these are left. -/
def Form.IsRead : Form → List Token → List Token → Prop
  | .expression expr, tokens, rest => expressionOf tokens = .ok (expr, rest)
  | .term read, tokens, rest => TermAt tokens read rest
  | .others read, tokens, rest => othersOf tokens = .ok (read, rest)
  | .operand expr, tokens, rest => operandOf tokens = .ok (expr, rest)
  | .suffixes wrap, tokens, rest => ∀ expr, suffixesOf expr tokens = .ok (wrap expr, rest)
  | .primary expr, tokens, rest => primaryOf tokens = .ok (expr, rest)
  | .listed close exprs, tokens, rest =>
    (close = .bracketClose → elementsOf tokens = .ok (exprs, rest)) ∧
      (close = .parenClose → ∀ position, argumentsFromOf position tokens = .ok (exprs, rest))
  | .arguments exprs, tokens, rest => argumentsOf tokens = .ok (exprs, rest)

theorem closing_eq {separator : Separator} (h : token.kind = .separator separator)
    (rest : List Token) : Reader.closing separator (token :: rest) = .ok rest := by
  obtain ⟨kind, text, spaced⟩ := token
  cases h
  exact if_pos (beq_self_eq_true separator)

/-- A name that begins no cast. -/
theorem primaryOf_uncast {name : String} (htoken : token.kind = .identifier name)
    (hcast : ∀ type, DataType.ofKeyword? name = some type →
      ∀ after ∈ rest.head?, after.kind ≠ .separator .parenOpen) :
    primaryOf (token :: rest) = readName name rest := by
  obtain ⟨kind, text, spaced⟩ := token
  cases htoken
  unfold primaryOf ample readPrimary
  dsimp only
  split
  · rename_i type _ _ _ htype
    exact absurd rfl (hcast type htype _ rfl)
  · rfl

namespace ArrayType

variable {name declared : String} {type : DataType} {brackets : List Token} {word : Token}

theorem not_paren (h : ArrayType name type brackets) (hword : word.kind = .identifier declared)
    (rest : List Token) :
    ∀ token ∈ (brackets ++ word :: rest).head?, token.kind ≠ .separator .parenOpen := by
  intro token hmem hkind
  cases brackets with
  | nil =>
    cases hmem
    rw [hword] at hkind
    cases hkind
  | cons first brackets =>
    cases hmem
    rcases h.isBracket _ List.mem_cons_self with hbracket | hbracket <;>
      rw [hbracket] at hkind <;> cases hkind

theorem readName_eq (h : ArrayType name type brackets) (hword : word.kind = .identifier declared)
    (rest : List Token) :
    readName name (brackets ++ word :: rest) = .ok (.declare type declared, rest) := by
  obtain ⟨kind, text, spaced⟩ := word
  cases hword
  unfold readName
  rw [h.type_eq]
  rintro _ ⟨⟩ hkind
  cases hkind

end ArrayType

/-- A list begins with what no list ends with. -/
theorem Form.Takes.exists_head (h : form.Takes front rest) : match form with
    | .others _ | .suffixes _ | .arguments _ => True
    | _ => ∃ token ∈ front.head?, token.kind ≠ .separator .parenClose ∧
        token.kind ≠ .separator .bracketClose := by
  induction h with
  | expression _ _ ih | operand _ _ ih | last _ _ ih | next _ _ _ ih =>
    obtain ⟨token, hmem, hkind⟩ := ih
    exact ⟨token, by rw [List.head?_append, Option.mem_def.mp hmem]; rfl, hkind⟩
  | unsigned _ ih => exact ih
  | @sign token op term front rest hsign _ _ =>
    refine ⟨token, rfl, ?_, ?_⟩ <;> intro hkind <;> rw [signOf?, hkind] at hsign <;> cases hsign
  | literal htoken | ownMember htoken | name htoken | declare htoken | cast htoken | paren htoken
  | emptyArray htoken | array htoken =>
    refine ⟨_, rfl, ?_, ?_⟩ <;> rw [htoken] <;> nofun
  | _ => trivial

/-- What a form takes is read as the form. -/
theorem Form.Takes.isRead (h : form.Takes front rest) : form.IsRead (front ++ rest) rest := by
  induction h with
  | @expression first others front middle rest hfirst hothers ihfirst ihothers =>
    rw [List.append_assoc]
    simp only [IsRead] at ihfirst ihothers ⊢
    rw [expressionOf_eq, ihfirst.termOf_eq]
    dsimp only [bind, Except.bind]
    rw [ihothers]
    rfl
  | unsigned _ ih => exact .operand ih
  | sign hsign _ ih => exact .sign hsign ih
  | @noOthers rest hend =>
    simp only [IsRead]
    rw [List.nil_append, othersOf_eq, readBinary?_eq_none_iff.mpr hend]
  | @joined token op term others front middle rest hjoins _ _ ihterm ihothers =>
    rw [List.cons_append, List.append_assoc]
    simp only [IsRead] at ihterm ihothers ⊢
    rw [othersOf_eq, readBinary?_of_joins hjoins]
    dsimp only
    rw [ihterm.termOf_eq]
    dsimp only [bind, Except.bind]
    rw [ihothers]
    rfl
  | operand _ _ ihprimary ihwrap =>
    rw [List.append_assoc]
    simp only [IsRead] at ihprimary ihwrap ⊢
    rw [operandOf_eq, ihprimary]
    exact ihwrap _
  | noSuffixes hend => exact fun expr => suffixesOf_end expr hend
  | call htoken _ _ iharguments ihwrap =>
    intro expr
    rw [List.cons_append, List.append_assoc]
    simp only [IsRead] at iharguments
    rw [suffixesOf_call htoken, iharguments]
    exact ihwrap _
  | @index token closing index wrap front middle rest htoken _ hclosing _ ihindex ihwrap =>
    intro expr
    rw [List.cons_append, List.append_assoc]
    simp only [IsRead] at ihindex
    rw [suffixesOf_index htoken, List.cons_append, ihindex]
    dsimp only [bind, Except.bind]
    rw [closing_eq hclosing]
    exact ihwrap _
  | @member token word name wrap middle rest htoken hword _ ih =>
    intro expr
    obtain ⟨kind, text, spaced⟩ := word
    cases hword
    rw [List.cons_append, List.cons_append, suffixesOf_member htoken]
    exact ih _
  | literal htoken => exact primaryOf_literal htoken _
  | ownMember htoken => exact primaryOf_ownMember htoken _
  | @name token name rest htoken hread hcast =>
    simp only [IsRead]
    rw [List.singleton_append]
    exact (primaryOf_uncast htoken hcast).trans hread
  | @declare token word name declared type brackets rest htoken htype hword =>
    simp only [IsRead]
    rw [List.cons_append, List.append_assoc, List.singleton_append,
      primaryOf_name htoken (htype.not_paren hword rest)]
    exact htype.readName_eq hword rest
  | cast htoken htype hafter _ ih =>
    simp only [IsRead] at ih ⊢
    rw [List.cons_append, List.cons_append, primaryOf_cast htoken htype hafter, ih]
    rfl
  | @paren token closing inner front rest htoken _ hclosing ih =>
    simp only [IsRead] at ih ⊢
    rw [List.cons_append, List.append_assoc, primaryOf_paren htoken, List.singleton_append, ih]
    dsimp only [bind, Except.bind]
    rw [closing_eq hclosing]
    rfl
  | emptyArray htoken hclosing => exact primaryOf_empty htoken hclosing _
  | @array token elements front rest htoken helements ih =>
    obtain ⟨first, hmem, -, hfirst⟩ := helements.exists_head
    simp only [IsRead] at ih ⊢
    rw [List.cons_append, primaryOf_array htoken, ih.1 trivial]
    · rfl
    · intro other hother
      rw [List.head?_append, Option.mem_def.mp hmem] at hother
      cases hother
      exact hfirst
  | @last close closing expr front rest hexpr hclosing ih =>
    simp only [IsRead] at ih ⊢
    rw [List.append_assoc, List.singleton_append]
    obtain ⟨kind, text, spaced⟩ := closing
    cases hclosing
    constructor
    · rintro rfl
      rw [elementsOf_eq, ih]
      rfl
    · rintro rfl position
      rw [argumentsFromOf_eq, ih]
  | @next close comma expr exprs front middle rest hexpr hcomma hexprs ihexpr ihexprs =>
    simp only [IsRead] at ihexpr ihexprs ⊢
    rw [List.append_assoc, List.cons_append]
    obtain ⟨kind, text, spaced⟩ := comma
    cases hcomma
    constructor
    · intro hclose
      rw [elementsOf_eq, ihexpr]
      dsimp only [bind, Except.bind]
      rw [ihexprs.1 hclose]
      rfl
    · intro hclose position
      rw [argumentsFromOf_eq, ihexpr]
      dsimp only [bind, Except.bind]
      rw [ihexprs.2 hclose]
      rfl
  | noArguments hclosing => exact argumentsOf_none hclosing _
  | @arguments exprs front rest hexprs ih =>
    obtain ⟨first, hmem, hfirst, -⟩ := hexprs.exists_head
    simp only [IsRead] at ih ⊢
    rw [argumentsOf_some, ih.2 trivial 1]
    intro other hother
    rw [List.head?_append, Option.mem_def.mp hmem] at hother
    cases hother
    exact hfirst

end Reading

section Completeness

/-- The form takes what is read, up to what is left. -/
def Form.Covers (form : Form) (tokens rest : List Token) : Prop :=
  ∃ front, tokens = front ++ rest ∧ form.Takes front rest

theorem bind_eq_ok {α β : Type} {x : Except SyntaxError α} {f : α → Except SyntaxError β} {b : β}
    (h : (x >>= f) = .ok b) : ∃ a, x = .ok a ∧ f a = .ok b := by
  cases x with
  | error e => cases h
  | ok a => exact ⟨a, rfl, h⟩

theorem closing_eq_ok {separator : Separator} (h : Reader.closing separator tokens = .ok rest) :
    ∃ closing, tokens = closing :: rest ∧ closing.kind = .separator separator := by
  unfold Reader.closing at h
  split at h
  · rename_i token others
    split at h
    · rename_i hclosing
      cases h
      refine ⟨token, rfl, ?_⟩
      unfold Token.isSeparator at hclosing
      split at hclosing
      · rename_i found hfound
        obtain rfl := eq_of_beq hclosing
        exact hfound
      · cases hclosing
    · cases h
  · cases h

theorem Form.Covers.length_le (h : form.Covers tokens rest) : rest.length ≤ tokens.length := by
  obtain ⟨front, rfl, -⟩ := h
  rw [List.length_append]
  exact Nat.le_add_left _ _

/-- Expressions over fewer tokens are what the form takes. -/
def CoversBelow (n : Nat) : Prop :=
  ∀ tokens rest expr, tokens.length < n → expressionOf tokens = .ok (expr, rest) →
    (Form.expression expr).Covers tokens rest

namespace CoversBelow

variable {n : Nat} {expr : Expr} {exprs : List Expr} {wrap : Expr → Expr}

/-- One more expression of a list, and the rest of it. -/
theorem listed_step {close : Separator} (h : CoversBelow n) (hlength : tokens.length < n)
    {read : List Token} (hread : expressionOf tokens = .ok (expr, read))
    (hread' : (∃ closing, read = closing :: rest ∧ closing.kind = .separator close ∧ exprs = []) ∨
      ∃ comma middle, read = comma :: middle ∧ comma.kind = .separator .comma ∧
        (middle.length < tokens.length → (Form.listed close exprs).Covers middle rest)) :
    (Form.listed close (expr :: exprs)).Covers tokens rest := by
  obtain ⟨front, rfl, hexpr⟩ := h _ _ _ hlength hread
  rcases hread' with ⟨closing, rfl, hclosing, rfl⟩ | ⟨comma, middle, rfl, hcomma, hmiddle⟩
  · exact ⟨front ++ [closing], by simp, .last hexpr hclosing⟩
  · have hshorter : middle.length < (front ++ comma :: middle).length := by
      simp only [List.length_append, List.length_cons]
      omega
    obtain ⟨others, rfl, hothers⟩ := hmiddle hshorter
    exact ⟨front ++ comma :: others, by simp, .next hexpr hcomma hothers⟩

theorem elements (h : CoversBelow n) (hlength : tokens.length < n)
    (hread : elementsOf tokens = .ok (exprs, rest)) :
    (Form.listed .bracketClose exprs).Covers tokens rest := by
  induction hcount : tokens.length using Nat.strongRecOn generalizing tokens exprs with
  | ind count ih =>
    subst hcount
    rw [elementsOf_eq] at hread
    obtain ⟨⟨element, read⟩, helement, hread⟩ := bind_eq_ok hread
    dsimp only at hread
    split at hread
    · cases hread
    · cases hread
      exact h.listed_step hlength helement (.inl ⟨_, rfl, rfl, rfl⟩)
    · rename_i text spaced middle
      obtain ⟨⟨others, rest'⟩, hothers, hread⟩ := bind_eq_ok hread
      cases hread
      exact h.listed_step hlength helement (.inr ⟨_, middle, rfl, rfl, fun hshorter =>
        ih _ hshorter (Nat.lt_trans hshorter hlength) hothers rfl⟩)
    · cases hread

theorem argumentsFrom (h : CoversBelow n) (hlength : tokens.length < n) {position : Nat}
    (hread : argumentsFromOf position tokens = .ok (exprs, rest)) :
    (Form.listed .parenClose exprs).Covers tokens rest := by
  induction hcount : tokens.length using Nat.strongRecOn generalizing tokens exprs position with
  | ind count ih =>
    subst hcount
    rw [argumentsFromOf_eq] at hread
    split at hread
    · cases hread
    · cases hread
    · rename_i hargument
      cases hread
      exact h.listed_step hlength hargument (.inl ⟨_, rfl, rfl, rfl⟩)
    · rename_i argument text spaced middle hargument
      obtain ⟨⟨others, rest'⟩, hothers, hread⟩ := bind_eq_ok hread
      cases hread
      exact h.listed_step hlength hargument (.inr ⟨_, middle, rfl, rfl, fun hshorter =>
        ih _ hshorter (Nat.lt_trans hshorter hlength) hothers rfl⟩)
    · cases hread

theorem arguments (h : CoversBelow n) (hlength : tokens.length < n)
    (hread : argumentsOf tokens = .ok (exprs, rest)) : (Form.arguments exprs).Covers tokens rest := by
  by_cases hclose : ∃ closing ∈ tokens.head?, closing.kind = .separator .parenClose
  · obtain ⟨closing, hmem, hclosing⟩ := hclose
    obtain ⟨others, rfl⟩ := List.head?_eq_some_iff.mp hmem
    cases (argumentsOf_none hclosing others).symm.trans hread
    exact ⟨[closing], rfl, .noArguments hclosing⟩
  · rw [argumentsOf_some fun token hmem hkind => hclose ⟨token, hmem, hkind⟩] at hread
    obtain ⟨front, htokens, hfront⟩ := h.argumentsFrom hlength hread
    exact ⟨front, htokens, .arguments hfront⟩

theorem suffixes (h : CoversBelow n) (hlength : tokens.length ≤ n) {operand : Expr}
    (hread : suffixesOf operand tokens = .ok (expr, rest)) :
    ∃ wrap, wrap operand = expr ∧ (Form.suffixes wrap).Covers tokens rest := by
  induction hcount : tokens.length using Nat.strongRecOn generalizing tokens operand with
  | ind count ih =>
    subst hcount
    by_cases hend : ∀ token ∈ tokens.head?, EndsOperand token
    · cases (suffixesOf_end operand hend).symm.trans hread
      exact ⟨_, rfl, [], rfl, .noSuffixes hend⟩
    obtain ⟨token, others, rfl, htoken⟩ : ∃ token others, tokens = token :: others ∧
        ¬EndsOperand token := by
      cases tokens with
      | nil => exact absurd nofun hend
      | cons token others => exact ⟨token, others, rfl, fun htoken => hend (by rintro _ ⟨⟩; exact htoken)⟩
    rw [List.length_cons] at hlength
    have hkinds : token.kind = .separator .parenOpen ∨ token.kind = .separator .bracketOpen ∨
        token.kind = .operator .member := by
      unfold EndsOperand at htoken
      tauto
    rcases hkinds with hparen | hbracket | hmember
    · rw [suffixesOf_call hparen] at hread
      obtain ⟨⟨arguments, middle⟩, harguments, hmiddle⟩ := bind_eq_ok hread
      have hcovers := h.arguments hlength harguments
      have hshorter := Nat.lt_succ_of_le hcovers.length_le
      obtain ⟨wrap, hexpr, hwrap⟩ := ih _ hshorter (Nat.le_trans (Nat.le_of_lt hshorter) hlength)
        hmiddle rfl
      obtain ⟨front, rfl, hfront⟩ := hcovers
      obtain ⟨behind, rfl, hbehind⟩ := hwrap
      exact ⟨_, hexpr, token :: (front ++ behind), by simp, .call hparen hfront hbehind⟩
    · rw [suffixesOf_index hbracket] at hread
      obtain ⟨⟨index, read⟩, hindex, hread⟩ := bind_eq_ok hread
      obtain ⟨middle, hclose, hmiddle⟩ := bind_eq_ok hread
      obtain ⟨closing, rfl, hclosing⟩ := closing_eq_ok hclose
      have hcovers := h _ _ _ hlength hindex
      have hshorter := Nat.lt_succ_of_le (Nat.le_of_succ_le hcovers.length_le)
      obtain ⟨wrap, hexpr, hwrap⟩ := ih _ hshorter (Nat.le_trans (Nat.le_of_lt hshorter) hlength)
        hmiddle rfl
      obtain ⟨front, rfl, hfront⟩ := hcovers
      obtain ⟨behind, rfl, hbehind⟩ := hwrap
      exact ⟨_, hexpr, token :: (front ++ closing :: behind), by simp,
        .index hbracket hfront hclosing hbehind⟩
    · rw [suffixesOf_member hmember] at hread
      obtain ⟨⟨name, middle⟩, hname, hmiddle⟩ := bind_eq_ok hread
      unfold Reader.identifier at hname
      split at hname
      · cases hname
      · rename_i name' text spaced middle'
        obtain ⟨rfl, rfl⟩ := Prod.mk.inj (Except.ok.inj hname)
        have hshorter : middle'.length < middle'.length + 1 + 1 := by omega
        obtain ⟨wrap, hexpr, behind, rfl, hbehind⟩ := ih _ hshorter
          (Nat.le_trans (Nat.le_of_lt hshorter) hlength) hmiddle rfl
        exact ⟨_, hexpr, token :: _ :: behind, rfl, .member hmember rfl hbehind⟩
      · cases hname

/-- The type that is read off brackets is the type of a name with these brackets. -/
theorem exists_arrayType {base type : DataType} (hread : Reader.typeSuffix base tokens = (type, rest)) :
    ∃ brackets, tokens = brackets ++ rest ∧ (∀ token ∈ brackets, IsBracket token) ∧
      ∀ more : List Token, (∀ token ∈ more.head?, token.kind ≠ .separator .bracketOpen) →
        Reader.typeSuffix base (brackets ++ more) = (type, more) := by
  fun_induction Reader.typeSuffix base tokens with
  | case1 base text spaced text' spaced' others ih =>
    obtain ⟨brackets, rfl, hbrackets, hmore⟩ := ih hread
    refine ⟨⟨.separator .bracketOpen, text, spaced⟩ :: ⟨.separator .bracketClose, text', spaced'⟩ ::
      brackets, rfl, ?_, fun more hhead => ?_⟩
    · exact List.forall_mem_cons.mpr ⟨.inl rfl, List.forall_mem_cons.mpr ⟨.inr rfl, hbrackets⟩⟩
    · exact hmore more hhead
  | case2 base tokens hplain =>
    obtain ⟨rfl, rfl⟩ := Prod.mk.inj hread
    exact ⟨[], rfl, List.forall_mem_nil _, fun more hhead => Reader.typeSuffix_end base hhead⟩

theorem name {name : String} (htoken : token.kind = .identifier name)
    (hcast : ∀ type, DataType.ofKeyword? name = some type →
      ∀ after ∈ tokens.head?, after.kind ≠ .separator .parenOpen)
    (hread : readName name tokens = .ok (expr, rest)) :
    (Form.primary expr).Covers (token :: tokens) rest := by
  have hname := hread
  unfold readName at hread
  split at hread
  · rename_i type declared text spaced others hsuffix
    obtain ⟨rfl, rfl⟩ := Prod.mk.inj (Except.ok.inj hread)
    obtain ⟨brackets, rfl, hbrackets, hmore⟩ := exists_arrayType hsuffix
    have htype : ArrayType name type brackets := ⟨hbrackets, hmore⟩
    exact ⟨token :: (brackets ++ [⟨.identifier declared, text, spaced⟩]), by simp,
      .declare htoken htype rfl⟩
  · cases hread
  · obtain ⟨rfl, rfl⟩ := Prod.mk.inj (Except.ok.inj hread)
    exact ⟨[token], rfl, .name htoken hname hcast⟩

theorem primary (h : CoversBelow n) (hlength : tokens.length ≤ n)
    (hread : primaryOf tokens = .ok (expr, rest)) : (Form.primary expr).Covers tokens rest := by
  obtain ⟨token, others, rfl⟩ : ∃ token others, tokens = token :: others := by
    cases tokens with
    | nil => cases hread
    | cons token others => exact ⟨token, others, rfl⟩
  rw [List.length_cons] at hlength
  cases hkind : token.kind with
  | literal value =>
    cases (primaryOf_literal hkind others).symm.trans hread
    exact ⟨[token], rfl, .literal hkind⟩
  | ownMember name =>
    cases (primaryOf_ownMember hkind others).symm.trans hread
    exact ⟨[token], rfl, .ownMember hkind⟩
  | identifier name =>
    by_cases hcast : ∀ type, DataType.ofKeyword? name = some type →
        ∀ after ∈ others.head?, after.kind ≠ .separator .parenOpen
    · rw [primaryOf_uncast hkind hcast] at hread
      exact CoversBelow.name hkind hcast hread
    · simp only [not_forall, not_not] at hcast
      obtain ⟨type, htype, after, hmem, hafter⟩ := hcast
      obtain ⟨inner, rfl⟩ := List.head?_eq_some_iff.mp hmem
      rw [primaryOf_cast hkind htype hafter] at hread
      obtain ⟨⟨arguments, rest'⟩, harguments, hok⟩ := bind_eq_ok hread
      cases hok
      obtain ⟨front, rfl, hfront⟩ := h.arguments (Nat.lt_of_succ_lt hlength) harguments
      exact ⟨token :: after :: front, rfl, .cast hkind htype hafter hfront⟩
  | separator separator =>
    cases separator with
    | parenOpen =>
      rw [primaryOf_paren hkind] at hread
      obtain ⟨⟨inner, read⟩, hinner, hread⟩ := bind_eq_ok hread
      obtain ⟨middle, hclose, hok⟩ := bind_eq_ok hread
      cases hok
      obtain ⟨closing, rfl, hclosing⟩ := closing_eq_ok hclose
      obtain ⟨front, rfl, hfront⟩ := h _ _ _ hlength hinner
      exact ⟨token :: (front ++ [closing]), by simp, .paren hkind hfront hclosing⟩
    | bracketOpen =>
      by_cases hempty : ∃ closing ∈ others.head?, closing.kind = .separator .bracketClose
      · obtain ⟨closing, hmem, hclosing⟩ := hempty
        obtain ⟨inner, rfl⟩ := List.head?_eq_some_iff.mp hmem
        cases (primaryOf_empty hkind hclosing inner).symm.trans hread
        exact ⟨[token, closing], rfl, .emptyArray hkind hclosing⟩
      · rw [primaryOf_array hkind fun after hmem hafter => hempty ⟨after, hmem, hafter⟩] at hread
        obtain ⟨⟨elements, rest'⟩, helements, hok⟩ := bind_eq_ok hread
        cases hok
        obtain ⟨front, rfl, hfront⟩ := h.elements hlength helements
        exact ⟨token :: front, rfl, .array hkind hfront⟩
    | _ =>
      obtain ⟨kind, text, spaced⟩ := token
      cases hkind
      cases hread
  | operator op | keyword keyword =>
    obtain ⟨kind, text, spaced⟩ := token
    cases hkind
    cases hread

theorem operand (h : CoversBelow n) (hlength : tokens.length ≤ n)
    (hread : operandOf tokens = .ok (expr, rest)) : (Form.operand expr).Covers tokens rest := by
  rw [operandOf_eq] at hread
  obtain ⟨⟨primary, middle⟩, hprimary, hsuffixes⟩ := bind_eq_ok hread
  have hcovers := h.primary hlength hprimary
  obtain ⟨wrap, rfl, hwrap⟩ := h.suffixes (Nat.le_trans hcovers.length_le hlength) hsuffixes
  obtain ⟨front, rfl, hfront⟩ := hcovers
  obtain ⟨behind, rfl, hbehind⟩ := hwrap
  exact ⟨front ++ behind, by simp, .operand hfront hbehind⟩

theorem term {term : Term} (h : CoversBelow n) (hlength : tokens.length ≤ n)
    (hread : TermAt tokens term rest) : (Form.term term).Covers tokens rest := by
  induction hread with
  | operand hread =>
    obtain ⟨front, rfl, hfront⟩ := h.operand hlength hread
    exact ⟨front, rfl, .unsigned hfront⟩
  | @sign token op tokens term rest hsign _ ih =>
    obtain ⟨front, rfl, hfront⟩ := ih (Nat.le_of_succ_le hlength)
    exact ⟨token :: front, rfl, .sign hsign hfront⟩

theorem chain {chain : Chain} (h : CoversBelow n) (hlength : tokens.length ≤ n)
    (hread : ChainAt tokens chain rest) : ∃ front middle, tokens = front ++ (middle ++ rest) ∧
      (Form.term chain.first).Takes front (middle ++ rest) ∧
        (Form.others chain.others).Takes middle rest := by
  induction hread with
  | last hterm hend =>
    obtain ⟨front, rfl, hfront⟩ := h.term hlength hterm
    exact ⟨front, [], rfl, hfront, .noOthers hend⟩
  | @joined tokens token op first middle chain rest hterm hjoins _ ih =>
    obtain ⟨front, rfl, hfront⟩ := h.term hlength hterm
    have hshorter : middle.length ≤ n := by
      simp only [List.length_append, List.length_cons] at hlength
      omega
    obtain ⟨front', middle', rfl, hfirst, hothers⟩ := ih hshorter
    refine ⟨front, token :: (front' ++ middle'), by simp, ?_, .joined hjoins hfirst hothers⟩
    simpa using hfront

end CoversBelow

theorem coversBelow (n : Nat) : CoversBelow n := by
  induction n with
  | zero => exact fun tokens rest expr hlength => absurd hlength (Nat.not_lt_zero _)
  | succ n ih =>
    intro tokens rest expr hlength hread
    rcases chainAt_or_fails tokens with ⟨chain, rest', hchain⟩ | ⟨e, hfails⟩
    · cases hchain.expressionOf_eq.symm.trans hread
      obtain ⟨front, middle, rfl, hfirst, hothers⟩ := ih.chain (Nat.le_of_lt_succ hlength) hchain
      exact ⟨front ++ middle, by simp, .expression hfirst hothers⟩
    · cases hfails.expressionOf_eq.symm.trans hread

/-- Tokens parse as an expression just when it takes them all. -/
theorem parse_eq_ok_iff {expr : Expr} :
    parse tokens = .ok expr ↔ (Form.expression expr).Takes tokens [] := by
  rw [parse_eq]
  constructor
  · intro h
    obtain ⟨⟨read, rest⟩, hread, hok⟩ := bind_eq_ok h
    cases rest with
    | nil =>
      cases hok
      obtain ⟨front, rfl, hfront⟩ := coversBelow _ _ _ _ (Nat.lt_succ_self _) hread
      rwa [List.append_nil]
    | cons token rest => cases hok
  · intro h
    have hread := h.isRead
    simp only [Form.IsRead] at hread
    rw [List.append_nil] at hread
    rw [hread]
    rfl

end Completeness

end BuildScript.Expr
