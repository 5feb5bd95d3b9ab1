import BuildScript.Token.Lexer

/-!
How lexemes form tokens. Most lexemes are a token each. A point and the word glued to it are two
tokens or one, a magnitude that is too large joins the minus before it, and three points at the end
are none.
-/

namespace BuildScript

/-- What a lexeme is a token of by itself. -/
def Lexeme.tokenKind? (lexeme : Lexeme) : Option TokenKind :=
  match lexeme.kind with
  | .quoted value => some (.literal (.string value))
  | .single value => some (.literal (.float value))
  | .magnitude value =>
    if value < Lexeme.largestMagnitude then some (.literal (.int (Int32.ofNat value))) else none
  | .word => some (Lexed.wordKind lexeme.text)
  | .operator op => some (.operator op)
  | .separator separator => some (.separator separator)
  | .ellipsis | .twoDots | .dot => none

namespace Lexed

/-- After the tokens `done`, last first, the lexemes form the tokens of a line. -/
inductive Formed : List Token → List Lexeme → Lexed → Prop
  | done {done} : Formed done [] ⟨done.reverse, false⟩
  | continued {done text spaced} : Formed done [⟨.ellipsis, text, spaced⟩] ⟨done.reverse, true⟩
  | single {done kind rest lexed} {lexeme : Lexeme} (hkind : lexeme.tokenKind? = some kind)
    (hrest : Formed (⟨kind, lexeme.text, lexeme.spaced⟩ :: done) rest lexed) :
    Formed done (lexeme :: rest) lexed
  | ownMember {done point word rest lexed}
    (hrest : Formed (⟨.ownMember word, point ++ word, true⟩ :: done) rest lexed) :
    Formed done (⟨.dot, point, true⟩ :: ⟨.word, word, false⟩ :: rest) lexed
  | member {done point word rest lexed}
    (hrest : Formed (⟨wordKind word, word, false⟩ :: ⟨.operator .member, point, false⟩ :: done) rest
      lexed) :
    Formed done (⟨.dot, point, false⟩ :: ⟨.word, word, false⟩ :: rest) lexed
  | negative {before minus value text minusSpaced spaced rest lexed}
    (hvalue : ¬value < Lexeme.largestMagnitude) (hsign : signAfter before.head? = true)
    (hrest : Formed (⟨.literal (.int Int32.minValue), "-" ++ text, minusSpaced⟩ :: before) rest
      lexed) :
    Formed (⟨.operator .subtract, minus, minusSpaced⟩ :: before)
      (⟨.magnitude value, text, spaced⟩ :: rest) lexed

variable {done : List Token} {lexemes rest : List Lexeme} {lexed : Lexed}

theorem ofLexemes_single {lexeme : Lexeme} {kind : TokenKind}
    (h : lexeme.tokenKind? = some kind) :
    ofLexemes done (lexeme :: rest) =
      ofLexemes (⟨kind, lexeme.text, lexeme.spaced⟩ :: done) rest := by
  obtain ⟨lexemeKind, text, spaced⟩ := lexeme
  cases lexemeKind with
  | magnitude value =>
    unfold Lexeme.tokenKind? at h
    dsimp only at h
    split at h
    · rename_i hvalue
      cases h
      rw [ofLexemes]
      unfold pushMagnitude
      rw [if_pos hvalue]
    · cases h
  | ellipsis | twoDots | dot => cases h
  | _ =>
    cases h
    rw [ofLexemes]

/-- A magnitude is an integer by itself, or it joins the minus before it. -/
theorem pushMagnitude_eq_ok {done' : List Token} {value : Nat} {text : String} {spaced : Bool}
    (h : pushMagnitude done value text spaced = .ok done') :
    (value < Lexeme.largestMagnitude ∧
        done' = ⟨.literal (.int (Int32.ofNat value)), text, spaced⟩ :: done) ∨
      ¬value < Lexeme.largestMagnitude ∧ ∃ minus minusSpaced before,
        done = ⟨.operator .subtract, minus, minusSpaced⟩ :: before ∧
          signAfter before.head? = true ∧
            done' = ⟨.literal (.int Int32.minValue), "-" ++ text, minusSpaced⟩ :: before := by
  unfold pushMagnitude at h
  split at h
  · rename_i hvalue
    cases h
    exact .inl ⟨hvalue, rfl⟩
  · rename_i hvalue
    split at h
    · split at h
      · rename_i hsign
        cases h
        exact .inr ⟨hvalue, _, _, _, rfl, hsign, rfl⟩
      · cases h
    · cases h

/-- The tokens of a line are the ones its lexemes form. -/
theorem formed_iff : Formed done lexemes lexed ↔ ofLexemes done lexemes = .ok lexed := by
  constructor
  · intro h
    induction h with
    | done | continued => rw [ofLexemes]; try rfl
    | single hkind hrest ih => rw [ofLexemes_single hkind, ih]
    | ownMember hrest ih | member hrest ih => rw [ofLexemes]; exact ih
    | negative hvalue hsign hrest ih =>
      rw [ofLexemes]
      unfold pushMagnitude
      rw [if_neg hvalue]
      dsimp only
      rw [if_pos hsign]
      exact ih
  · intro h
    fun_induction ofLexemes done lexemes with
    | case1 done =>
      cases h
      exact .done
    | case2 done text spaced rest hrest =>
      cases h
      obtain rfl := List.isEmpty_iff.mp hrest
      exact .continued
    | case5 done point word rest ih => exact .ownMember (ih h)
    | case6 done point spaced word rest hspaced ih =>
      obtain rfl := eq_false_of_ne_true hspaced
      exact .member (ih h)
    | case9 done value text spaced rest done' hpush ih =>
      rcases pushMagnitude_eq_ok hpush with
        ⟨hvalue, rfl⟩ | ⟨hvalue, minus, minusSpaced, before, rfl, hsign, rfl⟩
      · exact .single (if_pos hvalue) (ih h)
      · exact .negative hvalue hsign (ih h)
    | case10 done text spaced rest ih | case11 done value text spaced rest ih
    | case12 done value text spaced rest ih | case13 done op text spaced rest ih
    | case14 done separator text spaced rest ih => exact .single rfl (ih h)
    | _ => cases h

end Lexed

end BuildScript
