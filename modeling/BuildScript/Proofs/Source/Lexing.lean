import BuildScript.Proofs.Source.Tokens

/-!
Source text is lexed as its tokens. Tokens are put together piece by piece: a piece is read as its
tokens wherever what follows does not begin with a character that its last lexeme takes in, and the
pieces of an expression end in brackets, so they do not run into each other.
-/

namespace BuildScript

namespace Lexed

/-- The tokens are lexed from their text, whatever comes before and after, but for two things: the
text that follows does not begin with a character that `glues`, and if `sign` is set, a minus at the
front has to be a sign. -/
def Lexes (sign : Bool) (glues : Char → Bool) (tokens : List Token) : Prop :=
  ∃ lexemes, Lexeme.chars lexemes = Token.chars tokens ∧
    (∀ rest, Lexeme.Spelled rest → (∀ d ∈ (Lexeme.chars rest).head?, glues d = false) →
      Lexeme.Spelled (lexemes ++ rest)) ∧
    ∀ done rest lexed, (sign = true → signAfter done.head? = true) →
      Formed (tokens.reverse ++ done) rest lexed → Formed done (lexemes ++ rest) lexed

/-- An expression is followed by nothing, or by the parenthesis that closes it. -/
def opens (d : Char) : Bool := d != ')'

namespace Lexes

variable {sign sign' : Bool} {glues glues' : Char → Bool} {tokens others : List Token}

/-- What a bracket ends may stand wherever an expression may. -/
theorem closed (h : Lexes false glues tokens) (hclose : glues ')' = false) :
    Lexes true opens tokens := by
  obtain ⟨lexemes, hchars, hspelled, hformed⟩ := h
  refine ⟨lexemes, hchars, fun rest hrest hnext => hspelled rest hrest fun d hd => ?_,
    fun done rest lexed _ => hformed done rest lexed nofun⟩
  have hparen : d = ')' := by simpa [opens] using hnext d hd
  rw [hparen]
  exact hclose

/-- After a bracket anything may follow. -/
theorem free (h : Lexes sign (fun _ => false) tokens) : Lexes sign glues tokens := by
  obtain ⟨lexemes, hchars, hspelled, hformed⟩ := h
  exact ⟨lexemes, hchars, fun rest hrest _ => hspelled rest hrest fun _ _ => rfl, hformed⟩

/-- One piece after the other, where the first makes a sign possible if the second needs that. -/
theorem append_signed (h : Lexes sign glues tokens) (h' : Lexes sign' glues' others)
    (hsign : ∀ done, sign' = true → signAfter (tokens.reverse ++ done).head? = true)
    (hnext : ∀ more, ∀ d ∈ (Token.chars others ++ more).head?, glues d = false) :
    Lexes sign glues' (tokens ++ others) := by
  obtain ⟨lexemes, hchars, hspelled, hformed⟩ := h
  obtain ⟨lexemes', hchars', hspelled', hformed'⟩ := h'
  refine ⟨lexemes ++ lexemes', ?_, fun rest hrest hglues => ?_, fun done rest lexed hdone hrest => ?_⟩
  · rw [Token.chars_append, ← hchars, ← hchars']
    exact List.flatMap_append
  · -- To the first piece the second one is part of what follows.
    rw [List.append_assoc]
    refine hspelled _ (hspelled' rest hrest hglues) ?_
    rw [Lexeme.chars_append, hchars']
    exact hnext _
  · -- To the second one the first is done.
    rw [List.append_assoc]
    refine hformed done _ lexed hdone (hformed' _ _ _ (hsign done) ?_)
    rw [List.reverse_append, List.append_assoc] at hrest
    exact hrest

/-- One piece after the other. -/
theorem append (h : Lexes sign glues tokens) (h' : Lexes false glues' others)
    (hnext : ∀ more, ∀ d ∈ (Token.chars others ++ more).head?, glues d = false) :
    Lexes sign glues' (tokens ++ others) :=
  h.append_signed h' (fun _ hfalse => absurd hfalse Bool.false_ne_true) hnext

/-- A token that is a lexeme by itself. -/
theorem single {lexeme : Lexeme} {kind : TokenKind} {c : Char} {cs : List Char}
    (hkind : lexeme.tokenKind? = some kind) (htext : lexeme.text.toList = c :: cs)
    (hspells : Lexeme.Spells lexeme.kind c cs glues) :
    Lexes false glues [⟨kind, lexeme.text, lexeme.spaced⟩] := by
  refine ⟨[lexeme], rfl, fun rest hrest hglues => ?_, fun done rest lexed _ hrest => ?_⟩
  · exact ⟨⟨c, cs, glues, htext, hspells, hglues⟩, hrest⟩
  · exact .single hkind hrest

theorem mark (separator : Separator) (spaced : Bool) :
    Lexes false (fun _ => false) [separator.mark spaced] := by
  have hspells : Lexeme.Spells (.separator separator) separator.char [] fun _ => false := by
    cases separator <;> exact .symbol rfl
  let lexeme : Lexeme := ⟨.separator separator, separator.char.toString, spaced⟩
  have htext : lexeme.text.toList = [separator.char] := by simp [lexeme]
  have hkind : lexeme.tokenKind? = some (.separator separator) := rfl
  exact single hkind htext hspells

/-- Parentheses may stand anywhere, and an expression may stand in them. -/
theorem enclosed (h : Lexes true opens tokens) (spaced : Bool) :
    Lexes false (fun _ => false) (enclosed spaced tokens) := by
  have hinner : Lexes true (fun _ => false) (tokens ++ [Separator.parenClose.mark false]) := by
    refine h.append (mark .parenClose false) ?_
    rintro more _ ⟨⟩
    rfl
  exact (mark .parenOpen spaced).append_signed hinner (fun _ _ => rfl) fun _ _ _ => rfl

/-- Pieces with commas between them. -/
theorem separated {lists : List (List Token)} (close : Separator)
    (h : ∀ tokens ∈ lists, Lexes false glues tokens) (hcomma : glues ',' = false)
    (hclose : glues close.char = false) : Lexes false (fun _ => false) (separated close lists) := by
  induction lists with
  | nil =>
    rw [BuildScript.separated]
    exact mark close false
  | cons first others ih =>
    have hfirst := h first List.mem_cons_self
    have hrest := ih fun tokens hmem => h tokens (List.mem_cons_of_mem _ hmem)
    cases others with
    | nil =>
      rw [BuildScript.separated]
      refine hfirst.append (mark close false) ?_
      rw [Token.chars_mark]
      rintro more _ ⟨⟩
      exact hclose
    | cons second others =>
      rw [separated_cons _ _ (List.cons_ne_nil _ _)]
      have hcommaRest := (mark .comma false).append hrest fun _ _ _ => rfl
      refine hfirst.append hcommaRest ?_
      rw [Token.chars_mark]
      rintro more _ ⟨⟩
      exact hcomma

/-- A word is a token of the kind that words like it have. -/
theorem word {text : String} {c : Char} {cs : List Char} (htext : text.toList = c :: cs)
    (hc : Lexeme.isWordStart c = true) (hcs : cs.all Lexeme.isWordChar = true) (spaced : Bool) :
    Lexes false Lexeme.isWordChar [⟨wordKind text, text, spaced⟩] := by
  let lexeme : Lexeme := ⟨.word, text, spaced⟩
  have hkind : lexeme.tokenKind? = some (wordKind text) := rfl
  exact single hkind htext (.word hc (List.all_eq_true.mp hcs))

section Words

variable {word : String} (hname : IsName word)
include hname

theorem name (spaced : Bool) :
    Lexes false Lexeme.isWordChar [⟨.identifier word, word, spaced⟩] := by
  obtain ⟨⟨c, cs, htext, hc, hcs⟩, hfree⟩ := hname
  have hlexes := Lexes.word htext hc (List.all_eq_true.mpr hcs) spaced
  rw [hfree] at hlexes
  exact hlexes

/-- A point and the name after it are spelled as they must be. -/
theorem spelled_point (spaced : Bool) {rest : List Lexeme} (hrest : Lexeme.Spelled rest)
    (hnext : ∀ d ∈ (Lexeme.chars rest).head?, Lexeme.isWordChar d = false) :
    Lexeme.Spelled (⟨.dot, ".", spaced⟩ :: ⟨.word, word, false⟩ :: rest) := by
  obtain ⟨⟨c, cs, htext, hc, hcs⟩, -⟩ := hname
  have hpoint : ∀ d ∈ (Lexeme.chars (⟨.word, word, false⟩ :: rest)).head?,
      (d.isDigit || d == '.') = false := by
    rw [Lexeme.chars_cons, Lexeme.written, htext]
    rintro _ ⟨⟩
    rw [Lexeme.not_isDigit_of_isWordStart hc,
      Lexeme.beq_false_of_class (p := Lexeme.isWordStart) rfl hc]
    rfl
  exact ⟨⟨'.', [], _, by simp, .dot, hpoint⟩, ⟨c, cs, _, htext, .word hc hcs, hnext⟩, hrest⟩

/-- A point with white space before it, and a name. -/
theorem ownMember : Lexes false Lexeme.isWordChar [⟨.ownMember word, "." ++ word, true⟩] := by
  refine ⟨[⟨.dot, ".", true⟩, ⟨.word, word, false⟩], ?_,
    fun rest hrest hnext => spelled_point hname true hrest hnext,
    fun done rest lexed _ hrest => .ownMember hrest⟩
  simp [Lexeme.chars, Lexeme.written, Token.chars, Token.written]

/-- A point after a closing bracket, and a name. -/
theorem member : Lexes false Lexeme.isWordChar
    [⟨.operator .member, ".", false⟩, ⟨.identifier word, word, false⟩] := by
  refine ⟨[⟨.dot, ".", false⟩, ⟨.word, word, false⟩], ?_,
    fun rest hrest hnext => spelled_point hname false hrest hnext,
    fun done rest lexed _ hrest => .member ?_⟩
  · simp [Lexeme.chars, Lexeme.written, Token.chars, Token.written]
  · rw [hname.free]
    exact hrest

end Words

/-- Every operator that is written between operands or before one. -/
theorem operator {op : Operator} (hop : op.isBinary = true ∨ op = .not ∨ op = .negate)
    (spaced : Bool) : ∃ glues, Lexes false glues [⟨.operator op.lexed, op.symbol, spaced⟩] ∧
      glues '(' = false := by
  have hspells : ∃ c cs glues, op.symbol.toList = c :: cs ∧
      Lexeme.Spells (.operator op.lexed) c cs glues ∧ glues '(' = false := by
    cases op <;> first
      | exact ⟨_, _, _, rfl, .symbol rfl, rfl⟩
      | simp [Operator.isBinary] at hop
  obtain ⟨c, cs, glues, htext, hspells, hopen⟩ := hspells
  let lexeme : Lexeme := ⟨.operator op.lexed, op.symbol, spaced⟩
  have hkind : lexeme.tokenKind? = some (.operator op.lexed) := rfl
  exact ⟨glues, single hkind htext hspells, hopen⟩

end Lexes

end Lexed

section Literals

open Lexed (Lexes opens)

/-- No quote of an escaped text ends the literal. -/
theorem quotedLength?_escaped (text : List Char) :
    Lexeme.quotedLength? (escaped text ++ ['"']) = some (escaped text).length := by
  fun_induction escaped text with
  | case1 => rfl
  | case2 rest ih | case3 rest ih =>
    rw [List.cons_append, List.cons_append, Lexeme.quotedLength?, ih]
    rfl
  | case4 c rest hbackslash hquote ih =>
    have hescape : ∀ d others, c = '\\' → escaped rest ++ ['"'] = d :: others → False :=
      fun _ _ hc _ => hbackslash hc
    rw [List.cons_append, Lexeme.quotedLength?.eq_4 _ _ hquote hescape, ih]
    rfl

theorem unescapeChars_escaped (text : List Char) :
    Text.unescapeChars (escaped text) = .ok text := by
  fun_induction escaped text with
  | case1 => rfl
  | case2 rest ih | case3 rest ih =>
    rw [Text.unescapeChars, ih]
    rfl
  | case4 c rest hbackslash hquote ih =>
    unfold Text.unescapeChars
    split
    · rename_i heq
      cases heq
    · rename_i heq
      exact absurd (List.cons.inj heq).1 hbackslash
    · rename_i heq
      exact absurd (List.cons.inj heq).1 hbackslash
    · rename_i heq
      cases heq
      rw [ih]
      rfl

/-- The digits of a number are read as the number. -/
theorem digitsToNat_toDigits (n : Nat) : Lexeme.digitsToNat (Nat.toDigits 10 n) = n := by
  rw [Lexeme.digitsToNat, ← Nat.ofDigitChars_eq_foldl, Nat.ofDigitChars_ten_toDigits]

/-- A magnitude is spelled by its digits. -/
theorem Lexeme.spells_nat {n : Nat} (hn : n ≤ Lexeme.largestMagnitude) :
    ∃ c cs, (toString n).toList = c :: cs ∧ c.isDigit = true ∧
      Lexeme.Spells (.magnitude n) c cs fun d => d.isDigit || d == '.' := by
  obtain ⟨c, cs, hdigits⟩ := List.exists_cons_of_ne_nil (Nat.toDigits_ne_nil (n := n) (b := 10))
  have hall : ∀ d ∈ c :: cs, d.isDigit = true := by
    intro d hd
    rw [← hdigits] at hd
    exact Nat.isDigit_of_mem_toDigits (by decide) (by decide) hd
  have hvalue : Lexeme.digitsToNat (c :: cs) = n := by
    rw [← hdigits, digitsToNat_toDigits]
  have htext : (toString n).toList = c :: cs := by
    rw [← hdigits, ← String.toList_ofList (l := Nat.toDigits 10 n), ← Nat.toString_eq_ofList_toDigits]
  have hspells := Lexeme.Spells.magnitude (hall c List.mem_cons_self)
    (fun d hd => hall d (List.mem_cons_of_mem _ hd)) (by rwa [hvalue])
  rw [hvalue] at hspells
  exact ⟨c, cs, htext, hall c List.mem_cons_self, hspells⟩

theorem Literal.lexes_nat (n : Nat) (hn : n < Lexeme.largestMagnitude) (spaced : Bool) :
    Lexes true opens [⟨.literal (.int (Int32.ofNat n)), toString n, spaced⟩] := by
  obtain ⟨c, cs, htext, -, hspells⟩ := Lexeme.spells_nat (Nat.le_of_lt hn)
  let lexeme : Lexeme := ⟨.magnitude n, toString n, spaced⟩
  have hkind : lexeme.tokenKind? = some (.literal (.int (Int32.ofNat n))) := if_pos hn
  exact (Lexes.single hkind htext hspells).closed rfl

/-- The least integer is a minus and a magnitude of its own. -/
theorem Literal.lexes_minValue (spaced : Bool) :
    Lexes true opens [⟨.literal (.int Int32.minValue), "-2147483648", spaced⟩] := by
  have hminus : Lexeme.Spells (.operator .subtract) '-' [] (Lexeme.symbolGlues '-' []) :=
    .symbol rfl
  have hdigits : ['1', '4', '7', '4', '8', '3', '6', '4', '8'].all Char.isDigit = true := rfl
  have hvalue : Lexeme.digitsToNat ['2', '1', '4', '7', '4', '8', '3', '6', '4', '8'] =
      Lexeme.largestMagnitude := rfl
  have hmagnitude := Lexeme.Spells.magnitude (c := '2') rfl (List.all_eq_true.mp hdigits)
    (Nat.le_of_eq hvalue)
  rw [hvalue] at hmagnitude
  refine ⟨[⟨.operator .subtract, "-", spaced⟩,
    ⟨.magnitude Lexeme.largestMagnitude, "2147483648", false⟩], ?_, fun rest hrest hnext => ?_,
    fun done rest lexed hsign hrest => ?_⟩
  · cases spaced <;> rfl
  · refine ⟨⟨'-', [], _, by simp, hminus, ?_⟩, ⟨'2', _, _, by simp, hmagnitude, fun d hd => ?_⟩, hrest⟩
    · rintro _ ⟨⟩
      rfl
    · have hparen : d = ')' := by simpa [opens] using hnext d hd
      rw [hparen]
      rfl
  · exact .single rfl (.negative (by decide) (hsign rfl) hrest)

theorem Literal.lexes_int {value : Int32} (h : 0 ≤ value.toInt ∨ value = Int32.minValue)
    (spaced : Bool) : Lexes true opens [⟨.literal (.int value), toString value.toInt, spaced⟩] := by
  rcases h with hvalue | rfl
  · obtain ⟨n, hn⟩ := Int.eq_ofNat_of_zero_le hvalue
    have hsame : Int32.ofNat n = value := by
      rw [← Int32.ofInt_eq_ofNat, ← hn, Int32.ofInt_toInt]
    have hbound : n < Lexeme.largestMagnitude := by
      have hlt := value.toInt_lt
      unfold Lexeme.largestMagnitude
      omega
    have hlexes := lexes_nat n hbound spaced
    rw [hsame] at hlexes
    rw [hn]
    exact hlexes
  · exact lexes_minValue spaced

theorem Literal.lexes_float (decimal : Decimal) (spaced : Bool) :
    Lexes true opens [⟨.literal (.float decimal.value), decimal.source, spaced⟩] := by
  let lexeme : Lexeme := ⟨.single decimal.value, decimal.source, spaced⟩
  have hkind : lexeme.tokenKind? = some (.literal (.float decimal.value)) := rfl
  have htext : lexeme.text.toList =
      decimal.first :: (decimal.whole ++ '.' :: decimal.fraction) := String.toList_ofList
  exact (Lexes.single hkind htext (.single decimal.first_digit decimal.whole_digits
    decimal.fraction_digits)).closed rfl

theorem Literal.lexes_string (value : String) (spaced : Bool) :
    Lexes true opens [⟨.literal (.string value),
      "\"" ++ String.ofList (escaped value.toList) ++ "\"", spaced⟩] := by
  let lexeme : Lexeme :=
    ⟨.quoted value, "\"" ++ String.ofList (escaped value.toList) ++ "\"", spaced⟩
  have hkind : lexeme.tokenKind? = some (.literal (.string value)) := rfl
  have htext : lexeme.text.toList = '"' :: (escaped value.toList ++ ['"']) := by simp [lexeme]
  have hspells := Lexeme.Spells.quoted (quotedLength?_escaped value.toList)
    (unescapeChars_escaped value.toList)
  rw [String.ofList_toList] at hspells
  exact (Lexes.single hkind htext hspells).closed rfl

theorem Literal.lexes_bool (value : Bool) (spaced : Bool) :
    Lexes true opens [⟨.literal (.bool value), if value then "true" else "false", spaced⟩] := by
  have htrue : "true".toList = ['t', 'r', 'u', 'e'] := rfl
  have hfalse : "false".toList = ['f', 'a', 'l', 's', 'e'] := rfl
  cases value with
  | true => exact (Lexes.word htrue rfl rfl spaced).closed rfl
  | false => exact (Lexes.word hfalse rfl rfl spaced).closed rfl

end Literals

open Lexed (Lexes opens)
open Token (chars)

variable {decimal : Float32 → Decimal}

theorem DataType.isName_of_keyword {type : DataType}
    (h : DataType.ofKeyword? type.text = some type) : IsName type.text := by
  unfold DataType.ofKeyword? at h
  split at h <;> cases h
  all_goals exact ⟨⟨_, _, rfl, rfl, List.all_eq_true.mp rfl⟩, rfl⟩

theorem DataType.Writable.lexes {type : DataType} (h : type.Writable) (spaced : Bool) :
    Lexes false Lexeme.isWordChar (type.tokens spaced) := by
  induction h with
  | keyword hkeyword =>
    rw [DataType.tokens_keyword hkeyword]
    exact Lexes.name (DataType.isName_of_keyword hkeyword) spaced
  | @object className hname hfree =>
    have hlexes := Lexes.name hname spaced
    rw [← DataType.text_object hname] at hlexes
    exact hlexes
  | array h ih =>
    have hbrackets := (Lexes.mark .bracketOpen false).append (Lexes.mark .bracketClose false)
      fun _ _ _ => rfl
    rw [DataType.tokens]
    refine (ih.append hbrackets ?_).free
    rintro more _ ⟨⟩
    rfl

theorem Operator.lexed_of_isBinary {op : Operator} (h : op.isBinary = true) : op.lexed = op := by
  cases op <;> first | rfl | cases h

theorem Expr.lexes_listed {exprs : List Expr} (close : Separator)
    (h : ∀ expr ∈ exprs, ∀ spaced, Lexes true opens (expr.tokens decimal spaced)) :
    Lexes false (fun _ => false) (separated close (listedTokens decimal exprs)) := by
  have hall : ∀ tokens ∈ listedTokens decimal exprs, Lexes false (fun _ => false) tokens := by
    induction exprs with
    | nil =>
      rw [listedTokens]
      intro tokens hmem
      cases hmem
    | cons first others ih =>
      rw [listedTokens]
      rintro tokens (_ | ⟨_, hmem⟩)
      · exact (h first List.mem_cons_self false).enclosed false
      · exact ih (fun expr hexpr => h expr (List.mem_cons_of_mem _ hexpr)) tokens hmem
  exact Lexes.separated close hall rfl rfl

/-- An expression is lexed as its tokens wherever it is written. -/
theorem Expr.Writable.lexes {expr : Expr} (h : expr.Writable decimal) (spaced : Bool) :
    Lexes true opens (expr.tokens decimal spaced) := by
  induction h generalizing spaced with
  | bool value =>
    rw [tokens]
    cases value with
    | true => exact Literal.lexes_bool true spaced
    | false => exact Literal.lexes_bool false spaced
  | int hvalue =>
    rw [tokens]
    exact Literal.lexes_int hvalue spaced
  | @float value hvalue =>
    have hlexes := Literal.lexes_float (decimal value) spaced
    rw [hvalue] at hlexes
    rw [tokens]
    exact hlexes
  | string value =>
    rw [tokens]
    exact Literal.lexes_string value spaced
  | identifier hname =>
    rw [tokens]
    exact (Lexes.name hname spaced).closed rfl
  | ownMember hname =>
    rw [tokens]
    exact (Lexes.ownMember hname).closed rfl
  | declare htype hname =>
    rw [tokens]
    refine ((htype.lexes spaced).append (Lexes.name hname true) ?_).closed rfl
    rintro more _ ⟨⟩
    rfl
  | arrayLiteral h ih =>
    rw [tokens]
    exact ((Lexes.mark .bracketOpen spaced).append (lexes_listed _ ih) fun _ _ _ => rfl).closed rfl
  | unary hop h ih =>
    rw [tokens]
    obtain ⟨glues, hlexes, hopen⟩ := Lexes.operator (.inr hop) spaced
    refine (hlexes.append ((ih false).enclosed false) ?_).closed rfl
    rintro more _ ⟨⟩
    exact hopen
  | binary hop hleft hright ihl ihr =>
    obtain ⟨glues, hlexes, hopen⟩ := Lexes.operator (.inl hop) false
    rw [Operator.lexed_of_isBinary hop] at hlexes
    have hrest := hlexes.append ((ihr false).enclosed false) (by
      rintro more _ ⟨⟩
      exact hopen)
    rw [tokens]
    · exact (((ihl false).enclosed spaced).append hrest fun _ _ _ => rfl).closed rfl
    · exact Operator.ne_arrayAccess hop
  | index harray hindex iha ihi =>
    have hclose := ((ihi false).enclosed false).append (Lexes.mark .bracketClose false)
      fun _ _ _ => rfl
    have hrest := (Lexes.mark .bracketOpen false).append hclose fun _ _ _ => rfl
    rw [tokens]
    exact (((iha false).enclosed spaced).append hrest fun _ _ _ => rfl).closed rfl
  | member hobject hname ih =>
    rw [tokens]
    exact (((ih false).enclosed spaced).append (Lexes.member hname) fun _ _ _ => rfl).closed rfl
  | call hcallee h ih iha =>
    rw [tokens]
    have harguments := (Lexes.mark .parenOpen false).append (lexes_listed .parenClose iha) fun _ _ _ => rfl
    exact (((ih false).enclosed spaced).append harguments fun _ _ _ => rfl).closed rfl
  | cast htype h ih =>
    have harguments := (Lexes.mark .parenOpen false).append (lexes_listed .parenClose ih)
      fun _ _ _ => rfl
    rw [tokens]
    refine ((Lexes.name (DataType.isName_of_keyword htype) spaced).append harguments ?_).closed rfl
    rintro more _ ⟨⟩
    rfl

theorem Parameter.Writable.lexes {param : Parameter} (h : param.Writable) :
    Lexes false Lexeme.isWordChar param.tokens := by
  obtain ⟨type, name, byReference⟩ := param
  obtain ⟨htype, hname⟩ := h
  cases byReference with
  | false =>
    refine (htype.lexes false).append (Lexes.name hname true) ?_
    rintro more _ ⟨⟩
    rfl
  | true =>
    obtain ⟨c, cs, htext, hc, -⟩ := hname.spelled
    let ampersand : Lexeme := ⟨.operator .bitAnd, "&", true⟩
    have hkind : ampersand.tokenKind? = some (.operator .bitAnd) := rfl
    have hspells : Lexeme.Spells ampersand.kind '&' [] (· == '&') := .symbol rfl
    have hampersand := Lexes.single hkind (by simp [ampersand]) hspells
    have hreference := hampersand.append (Lexes.name hname false) (by
      dsimp only at htext
      rw [Token.chars_cons, Token.written, htext]
      rintro more _ ⟨⟩
      exact Lexeme.beq_false_of_class (p := Lexeme.isWordStart) rfl hc)
    refine (htype.lexes false).append hreference ?_
    rintro more _ ⟨⟩
    rfl

theorem Header.Writable.lexes {header : Header} (h : header.Writable) :
    ∃ glues, Lexes false glues header.tokens := by
  cases h with
  | @function name returnType params hname htype h =>
    have hparams : ∀ tokens ∈ params.map Parameter.tokens,
        Lexes false Lexeme.isWordChar tokens := by
      intro tokens hmem
      obtain ⟨param, hparam, rfl⟩ := List.mem_map.mp hmem
      exact (h param hparam).lexes
    have hlist := (Lexes.mark .parenOpen false).append
      (Lexes.separated .parenClose hparams rfl rfl) fun _ _ _ => rfl
    have hrest := (Lexes.name hname true).append hlist (by
      rintro more _ ⟨⟩
      rfl)
    refine ⟨_, (htype.lexes true).append hrest ?_⟩
    rintro more _ ⟨⟩
    rfl
  | classNamed hname =>
    have htext : "class".toList = ['c', 'l', 'a', 's', 's'] := rfl
    refine ⟨_, (Lexes.word htext rfl rfl true).append (Lexes.name hname true) ?_⟩
    rintro more _ ⟨⟩
    rfl
  | procedure hname =>
    have htext : "procedure".toList = ['p', 'r', 'o', 'c', 'e', 'd', 'u', 'r', 'e'] := rfl
    refine ⟨_, (Lexes.word htext rfl rfl true).append (Lexes.name hname true) ?_⟩
    rintro more _ ⟨⟩
    rfl

namespace Lexed

/-- Tokens that are lexed from their text are those of a line with this text. -/
theorem Lexes.ofChars {sign : Bool} {glues : Char → Bool} {tokens : List Token}
    {text : List Char} (h : Lexes sign glues tokens) (hblank : (chars tokens).head? = some ' ')
    (hscan : Lexeme.scan true text = Lexeme.scan true (chars tokens)) :
    ofChars text = .ok ⟨tokens, false⟩ := by
  obtain ⟨lexemes, hchars, hspelled, hformed⟩ := h
  have hall := hspelled [] trivial nofun
  have hdone : Formed (tokens.reverse ++ []) [] ⟨tokens, false⟩ := by
    have hreverse := @Formed.done tokens.reverse
    rw [List.reverse_reverse] at hreverse
    rw [List.append_nil]
    exact hreverse
  have hline := hformed [] [] ⟨tokens, false⟩ (fun _ => rfl) hdone
  rw [List.append_nil] at hall hline
  rw [← hchars] at hblank hscan
  rw [Lexed.ofChars, hscan, Lexeme.scan_chars hall (hall.mayBegin hblank)]
  exact formed_iff.mp hline

end Lexed

/-- A line that a statement is written on is lexed as the tokens of the statement, and does not go
on. -/
theorem Statement.Writable.ofLine_source {statement : Statement} (h : statement.Writable decimal) :
    Lexed.ofLine (statement.source decimal) = .ok ⟨statement.tokens decimal, false⟩ := by
  have hscan := h.scan_source
  cases h with
  | @expression expr h =>
    obtain ⟨text, hspaced, -⟩ := @Expr.chars_spaced decimal expr
    have hblank : (chars (expr.tokens decimal true)).head? = some ' ' := by rw [hspaced]; rfl
    exact (h.lexes true).ofChars hblank hscan
  | @declaration header h =>
    obtain ⟨glues, hlexes⟩ := h.lexes
    have hblank : (chars header.tokens).head? = some ' ' := by rw [header.chars_tokens]; rfl
    exact hlexes.ofChars hblank hscan

end BuildScript
