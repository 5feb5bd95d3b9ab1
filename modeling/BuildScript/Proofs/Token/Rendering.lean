import Mathlib
import BuildScript.Proofs.Token.Forming
import BuildScript.Proofs.Token.Lexemes

/-!
Rendering undoes lexing. Tokens are rendered as the lexemes that form them, but for two things: a
magnitude stands right after the minus that it joins, and the mark that the line goes on is gone.
Neither changes how the other lexemes are read.
-/

namespace BuildScript

/-- A word is a truth value, a keyword or a name. -/
theorem Lexed.wordKind_cases (word : String) :
    (∃ value, wordKind word = .literal (.bool value)) ∨
      (∃ keyword, wordKind word = .keyword keyword) ∨ wordKind word = .identifier word := by
  unfold wordKind
  split
  · exact .inl ⟨true, rfl⟩
  · split
    · exact .inl ⟨false, rfl⟩
    · split
      · exact .inr (.inl ⟨_, rfl⟩)
      · exact .inr (.inr rfl)

theorem Lexed.wordKind_ne_operator (word : String) {op : Operator} :
    wordKind word ≠ .operator op := by
  rcases wordKind_cases word with ⟨value, hkind⟩ | ⟨keyword, hkind⟩ | hkind <;>
    · rw [hkind]
      nofun

namespace Lexeme

/-- The lexeme as its token is rendered, if it is. -/
def rendered? (lexeme : Lexeme) : Option Lexeme :=
  match lexeme.kind with
  | .ellipsis => none
  | .magnitude value => some { lexeme with spaced := lexeme.spaced && decide (value < largestMagnitude) }
  | _ => some lexeme

def rendered (lexemes : List Lexeme) : List Lexeme := lexemes.filterMap rendered?

variable {lexeme : Lexeme} {rest : List Lexeme} {kind : TokenKind} {next : Option Char}

theorem rendered?_of_tokenKind? (h : lexeme.tokenKind? = some kind) :
    lexeme.rendered? = some lexeme := by
  obtain ⟨lexemeKind, text, spaced⟩ := lexeme
  unfold tokenKind? at h
  cases lexemeKind with
  | magnitude value =>
    dsimp only at h
    split at h
    · rename_i hvalue
      simp [rendered?, hvalue]
    · cases h
  | ellipsis | twoDots | dot => cases h
  | _ => rfl

theorem rendered_single (h : lexeme.tokenKind? = some kind) (rest : List Lexeme) :
    rendered (lexeme :: rest) = lexeme :: rendered rest :=
  List.filterMap_cons_some (rendered?_of_tokenKind? h)

/-- An operator is a token of its own lexeme only. -/
theorem kind_of_operator {op : Operator} (h : lexeme.tokenKind? = some (.operator op)) :
    lexeme.kind = .operator op := by
  obtain ⟨lexemeKind, text, spaced⟩ := lexeme
  unfold tokenKind? at h
  cases lexemeKind with
  | magnitude value =>
    dsimp only at h
    split at h <;> cases h
  | word => exact absurd (Option.some.inj h) (Lexed.wordKind_ne_operator text)
  | _ => cases h <;> rfl

/-- A minus takes in nothing but an equals sign. -/
theorem Fits.minus (h : lexeme.Fits next) (hkind : lexeme.kind = .operator .subtract) :
    lexeme.text = "-" ∧ ∀ other : Option Char, other ≠ some '=' → lexeme.Fits other := by
  obtain ⟨c, cs, glues, htext, hspells, -⟩ := h
  rw [hkind] at hspells
  cases hspells with
  | symbol hread =>
    obtain ⟨rfl, rfl⟩ : c = '-' ∧ cs = [] := by
      unfold readSymbol? at hread
      split at hread <;> simp at hread
      exact ⟨rfl, List.eq_nil_of_length_eq_zero hread.symm⟩
    have hspells : Spells lexeme.kind '-' [] (symbolGlues '-' []) := by
      rw [hkind]
      exact .symbol rfl
    refine ⟨String.toList_inj.mp htext, fun other hother => ⟨'-', [], _, htext, hspells, ?_⟩⟩
    rintro d rfl
    have hne : d ≠ '=' := fun heq => hother (congrArg some heq)
    simpa [symbolGlues] using hne

/-- A magnitude begins with a digit. -/
theorem Fits.digit {value : Nat} (h : lexeme.Fits next) (hkind : lexeme.kind = .magnitude value) :
    ∃ c cs, lexeme.text.toList = c :: cs ∧ c.isDigit = true := by
  obtain ⟨c, cs, glues, htext, hspells, -⟩ := h
  rw [hkind] at hspells
  cases hspells with
  | magnitude hc => exact ⟨c, cs, htext, hc⟩
  | symbol hread =>
    unfold readSymbol? at hread
    split at hread <;> cases hread

theorem Fits.head?_chars (h : lexeme.Fits next) (rest others : List Lexeme) :
    (chars (lexeme :: rest)).head? = (chars (lexeme :: others)).head? := by
  obtain ⟨c, cs, -, htext, -⟩ := h
  simp only [chars_cons, written, htext]
  cases lexeme.spaced <;> rfl

end Lexeme

namespace Token

def written (token : Token) : List Char :=
  (if token.spaced then [' '] else []) ++ token.text.toList

/-- The tokens with a blank before every spaced one, the first included. -/
def chars (tokens : List Token) : List Char := tokens.flatMap written

theorem chars_cons (token : Token) (rest : List Token) :
    chars (token :: rest) = token.written ++ chars rest := List.flatMap_cons

theorem chars_reverse_cons (token : Token) (done : List Token) :
    chars (token :: done).reverse = chars done.reverse ++ token.written := by
  simp [chars]

theorem toList_render_cons (first : Token) (others : List Token) :
    (render (first :: others)).toList = first.text.toList ++ chars others := by
  have hfold (out : String) : (others.foldl
      (fun out token => out ++ (if token.spaced then " " else "") ++ token.text) out).toList =
        out.toList ++ chars others := by
    induction others generalizing out with
    | nil => exact (List.append_nil _).symm
    | cons token rest ih =>
      rw [List.foldl_cons, ih, String.toList_append, String.toList_append, List.append_assoc,
        List.append_assoc, chars_cons, written, List.append_assoc]
      cases token.spaced <;> rfl
  exact hfold first.text

/-- A blank before the first token makes no difference. -/
theorem scan_render (tokens : List Token) :
    Lexeme.scan true (render tokens).toList = Lexeme.scan true (chars tokens) := by
  cases tokens with
  | nil => rfl
  | cons first others =>
    rw [toList_render_cons, chars_cons, written]
    cases first.spaced with
    | false => rfl
    | true => rw [if_pos rfl, List.append_assoc, List.singleton_append, Lexeme.scan_blank]

end Token

namespace Lexed

open Lexeme (rendered Spelled)

variable {done : List Token} {lexemes : List Lexeme} {lexed : Lexed}

/-- The lexemes of the rendered tokens form these tokens, and the line does not go on. -/
theorem Formed.again (h : Formed done lexemes lexed) :
    Formed done (rendered lexemes) ⟨lexed.tokens, false⟩ := by
  induction h with
  | done | continued => exact .done
  | single hkind hrest ih =>
    rw [Lexeme.rendered_single hkind]
    exact .single hkind ih
  | ownMember hrest ih => exact .ownMember ih
  | member hrest ih => exact .member ih
  | negative hvalue hsign hrest ih => exact .negative hvalue hsign ih

/-- A minus that was read last is written as one. -/
def MinusLast (done : List Token) : Prop :=
  ∀ token ∈ done.head?, token.kind = .operator .subtract → token.text = "-"

/-- The tokens are written as these lexemes are. -/
theorem Formed.chars_eq (h : Formed done lexemes lexed) (hspelled : Spelled lexemes)
    (hminus : MinusLast done) :
    Token.chars lexed.tokens = Token.chars done.reverse ++ Lexeme.chars (rendered lexemes) := by
  induction h with
  | done | continued => exact (List.append_nil _).symm
  | @single done kind rest lexed lexeme hkind hrest ih =>
    obtain ⟨hfits, hspelled⟩ := hspelled
    have hlast : MinusLast (⟨kind, lexeme.text, lexeme.spaced⟩ :: done) := by
      rintro _ ⟨⟩ hsubtract
      exact (hfits.minus (Lexeme.kind_of_operator (hsubtract ▸ hkind))).1
    rw [ih hspelled hlast, Token.chars_reverse_cons, Lexeme.rendered_single hkind,
      Lexeme.chars_cons, List.append_assoc]
    rfl
  | @ownMember done point word rest lexed hrest ih =>
    obtain ⟨-, -, hspelled⟩ := hspelled
    have hlast : MinusLast (⟨.ownMember word, point ++ word, true⟩ :: done) := by
      rintro _ ⟨⟩ hsubtract
      cases hsubtract
    rw [ih hspelled hlast, Token.chars_reverse_cons, List.append_assoc]
    simp [Token.written, Lexeme.rendered, Lexeme.rendered?, Lexeme.chars_cons, Lexeme.written]
  | @member done point word rest lexed hrest ih =>
    obtain ⟨-, -, hspelled⟩ := hspelled
    have hlast : MinusLast (⟨wordKind word, word, false⟩ ::
        ⟨.operator .member, point, false⟩ :: done) := by
      rintro _ ⟨⟩ hsubtract
      exact absurd hsubtract (wordKind_ne_operator word)
    rw [ih hspelled hlast, Token.chars_reverse_cons, Token.chars_reverse_cons, List.append_assoc,
      List.append_assoc]
    simp [Token.written, Lexeme.rendered, Lexeme.rendered?, Lexeme.chars_cons, Lexeme.written]
  | @negative before minus value text minusSpaced spaced rest lexed hvalue hsign hrest ih =>
    obtain ⟨-, hspelled⟩ := hspelled
    -- The number has taken the minus into its text, as it was written before.
    obtain rfl : minus = "-" := hminus _ rfl rfl
    have hlast : MinusLast
        (⟨.literal (.int Int32.minValue), "-" ++ text, minusSpaced⟩ :: before) := by
      rintro _ ⟨⟩ hsubtract
      cases hsubtract
    rw [ih hspelled hlast, Token.chars_reverse_cons, Token.chars_reverse_cons, List.append_assoc,
      List.append_assoc]
    simp [Token.written, Lexeme.rendered, Lexeme.rendered?, Lexeme.chars_cons, Lexeme.written,
      hvalue]

/-- What follows is the same, nothing, or a digit after a minus. -/
theorem Formed.head?_rendered (h : Formed done lexemes lexed) (hspelled : Spelled lexemes) :
    (Lexeme.chars (rendered lexemes)).head? = none ∨
      (Lexeme.chars (rendered lexemes)).head? = (Lexeme.chars lexemes).head? ∨
        (∃ token ∈ done.head?, token.kind = .operator .subtract) ∧
          (Lexeme.chars (rendered lexemes)).head? ≠ some '=' := by
  cases h with
  | done | continued => exact .inl rfl
  | single hkind hrest =>
    rw [Lexeme.rendered_single hkind]
    exact .inr (.inl (hspelled.1.head?_chars _ _))
  | ownMember hrest => exact .inr (.inl rfl)
  | member hrest => exact .inr (.inl (hspelled.1.head?_chars _ _))
  | @negative before minus value text minusSpaced spaced rest lexed hvalue hsign hrest =>
    -- The blank before the digits is gone: it is the one place where what follows changes.
    refine .inr (.inr ⟨⟨_, rfl, rfl⟩, ?_⟩)
    obtain ⟨c, cs, htext, hdigit⟩ := hspelled.1.digit rfl
    have hne : c ≠ '=' :=
      beq_eq_false_iff_ne.mp (Lexeme.beq_false_of_class (p := Char.isDigit) rfl hdigit)
    dsimp only at htext
    simp [Lexeme.rendered, Lexeme.rendered?, Lexeme.chars_cons, Lexeme.written, hvalue, htext, hne]

/-- What fits before the lexemes fits before the rendered ones. -/
theorem Formed.fits_rendered {token : Token} {lexeme : Lexeme}
    (h : Formed (token :: done) lexemes lexed) (hspelled : Spelled lexemes)
    (hfits : lexeme.Fits (Lexeme.chars lexemes).head?)
    (hminus : token.kind = .operator .subtract → lexeme.kind = .operator .subtract) :
    lexeme.Fits (Lexeme.chars (rendered lexemes)).head? := by
  rcases h.head?_rendered hspelled with hnone | hsame | ⟨⟨_, ⟨⟩, hsubtract⟩, hother⟩
  · rw [hnone]
    exact hfits.none
  · rw [hsame]
    exact hfits
  · exact (hfits.minus (hminus hsubtract)).2 _ hother

/-- The lexemes of the rendered tokens are spelled as they must be. -/
theorem Formed.spelled (h : Formed done lexemes lexed) (hspelled : Spelled lexemes) :
    Spelled (rendered lexemes) := by
  induction h with
  | done | continued => trivial
  | single hkind hrest ih =>
    obtain ⟨hfits, hspelled⟩ := hspelled
    rw [Lexeme.rendered_single hkind]
    exact ⟨hrest.fits_rendered hspelled hfits fun hsubtract =>
      Lexeme.kind_of_operator (hsubtract ▸ hkind), ih hspelled⟩
  | ownMember hrest ih =>
    obtain ⟨hpoint, hword, hspelled⟩ := hspelled
    rw [hword.head?_chars _ (rendered _)] at hpoint
    refine ⟨hpoint, hrest.fits_rendered hspelled hword ?_, ih hspelled⟩
    intro hsubtract
    cases hsubtract
  | member hrest ih =>
    obtain ⟨hpoint, hword, hspelled⟩ := hspelled
    rw [hword.head?_chars _ (rendered _)] at hpoint
    exact ⟨hpoint, hrest.fits_rendered hspelled hword fun hsubtract =>
      absurd hsubtract (wordKind_ne_operator _), ih hspelled⟩
  | negative hvalue hsign hrest ih =>
    obtain ⟨hfits, hspelled⟩ := hspelled
    refine ⟨hrest.fits_rendered hspelled hfits ?_, ih hspelled⟩
    intro hsubtract
    cases hsubtract

/-- The first of the rendered lexemes is spaced if the first lexeme is. -/
theorem Formed.mayBegin {lexemes : List Lexeme} (h : Formed [] lexemes lexed)
    (hbegin : Lexeme.MayBegin true lexemes) : Lexeme.MayBegin true (rendered lexemes) := by
  cases h with
  | done | continued => exact nofun
  | single hkind hrest =>
    rw [Lexeme.rendered_single hkind]
    exact hbegin
  | ownMember hrest | member hrest => exact hbegin

/-- Rendered tokens are lexed as these tokens again. -/
theorem ofLine_render {line : String} (h : ofLine line = .ok lexed) :
    ofLine (Token.render lexed.tokens) = .ok ⟨lexed.tokens, false⟩ := by
  unfold ofLine ofChars at h ⊢
  split at h
  · cases h
  · rename_i lexemes hscan
    obtain ⟨hspelled, hbegin, -⟩ := Lexeme.spelled_of_scan hscan
    have hformed := formed_iff.mpr h
    have hnone : MinusLast [] := by
      intro token hmem
      cases hmem
    have hchars : Token.chars lexed.tokens = Lexeme.chars (rendered lexemes) :=
      hformed.chars_eq hspelled hnone
    rw [Token.scan_render, hchars,
      Lexeme.scan_chars (hformed.spelled hspelled) (hformed.mayBegin hbegin)]
    exact formed_iff.mp hformed.again

/-- The tokens of `x = .low + - 2147483648 ... // more`. -/
def continuedSum : List Token :=
  [⟨.identifier "x", "x", true⟩, ⟨.operator .assign, "=", true⟩, ⟨.ownMember "low", ".low", true⟩,
    ⟨.operator .add, "+", true⟩, ⟨.literal (.int Int32.minValue), "-2147483648", true⟩]

/-- The blank after the minus, the mark and the comment are gone, and nothing else changes. -/
theorem continuedSum_renders :
    ofLine "x = .low + - 2147483648 ... // more" = .ok ⟨continuedSum, true⟩ ∧
      Token.render continuedSum = "x = .low + -2147483648" ∧
        ofLine (Token.render continuedSum) = .ok ⟨continuedSum, false⟩ := by
  have hline : ofLine "x = .low + - 2147483648 ... // more" = .ok ⟨continuedSum, true⟩ := by cbv
  exact ⟨hline, rfl, ofLine_render hline⟩

end Lexed

end BuildScript
