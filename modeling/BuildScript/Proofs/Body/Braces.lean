import BuildScript.Proofs.Token.Composing
import BuildScript.Script.Body

/-!
Matching braces. Tokens are balanced if every brace that opens among them closes among them and the
other way round. Counting from one open brace stops at the first closing brace before which the
tokens are balanced, and nowhere else.
-/

namespace BuildScript

namespace Lexeme

theorem not_isBlank_of_printed {c : Char} (hlow : 0x21 ≤ c.toNat) (hhigh : c.toNat ≤ 0x7e) :
    Text.isBlank c = false := by
  unfold Text.isBlank
  simp
  omega

/-- Nothing that starts a lexeme is blank. -/
theorem not_isBlank_of_read {c : Char} {rest : List Char} {read : LexemeKind × Nat}
    (h : Lexeme.read c rest = .ok read) : Text.isBlank c = false := by
  unfold Lexeme.read at h
  split at h
  · rename_i hquote
    rw [eq_of_beq hquote]
    rfl
  split at h
  · rename_i hdigit
    simp only [Char.isDigit, ge_iff_le, Bool.and_eq_true, decide_eq_true_eq,
      UInt32.le_iff_toNat_le] at hdigit
    exact not_isBlank_of_printed (Nat.le_trans (by decide) hdigit.1)
      (Nat.le_trans hdigit.2 (by decide))
  split at h
  · rename_i hdot
    rw [eq_of_beq hdot]
    rfl
  split at h
  · rename_i hword
    simp only [isWordStart, Char.isAlpha, Char.isUpper, Char.isLower, ge_iff_le, Bool.or_eq_true,
      Bool.and_eq_true, decide_eq_true_eq, beq_iff_eq, UInt32.le_iff_toNat_le] at hword
    rcases hword with (hupper | hlower) | rfl
    · exact not_isBlank_of_printed (Nat.le_trans (by decide) hupper.1)
        (Nat.le_trans hupper.2 (by decide))
    · exact not_isBlank_of_printed (Nat.le_trans (by decide) hlower.1)
        (Nat.le_trans hlower.2 (by decide))
    · rfl
  split at h
  · rename_i symbol hsymbol
    unfold readSymbol? at hsymbol
    split at hsymbol <;> first | decide | cases hsymbol
  · cases h

theorem isBlank_of_isGap {c : Char} (h : isGap c = true) : Text.isBlank c = true := by
  simp only [isGap, Bool.or_eq_true, beq_iff_eq] at h
  rcases h with (((rfl | rfl) | rfl) | rfl) | rfl <;> rfl

/-- A text that begins with a brace, blanks aside, is scanned as one. -/
theorem scan_braceOpen {spaced : Bool} {text : List Char} {lexemes : List Lexeme}
    (h : scan spaced text = .ok lexemes)
    (hbrace : (text.dropWhile Text.isBlank).head? = some '{') :
    ∃ lexeme others, lexemes = lexeme :: others ∧ lexeme.kind = .separator .braceOpen := by
  fun_induction scan spaced text generalizing lexemes with
  | case1 spaced => cases hbrace
  | case2 spaced c rest hgap ih =>
    rw [List.dropWhile_cons_of_pos (isBlank_of_isGap hgap)] at hbrace
    exact ih h hbrace
  | case3 spaced c rest hgap hcomment ih =>
    obtain rfl : c = '/' := eq_of_beq ((Bool.and_eq_true _ _).mp hcomment).1
    cases hbrace
  | case4 spaced c rest hgap hcomment e hread => cases h
  | case5 spaced c rest hgap hcomment kind n hread e hrest ih =>
    cases h
  | case6 spaced c rest hgap hcomment kind n hread others hrest ih =>
    cases h
    rw [List.dropWhile_cons_of_neg (by simp [not_isBlank_of_read hread])] at hbrace
    obtain rfl : c = '{' := Option.some.inj hbrace
    cases hread
    exact ⟨_, others, rfl, rfl⟩

end Lexeme

namespace Lexed

/-- A separator at the front is the first token. -/
theorem opens_of_ofLexemes {lexeme : Lexeme} {others : List Lexeme} {lexed : Lexed}
    {separator : Separator} (h : ofLexemes [] (lexeme :: others) = .ok lexed)
    (hkind : lexeme.kind = .separator separator) :
    ∃ rest, lexed.tokens = ⟨.separator separator, lexeme.text, lexeme.spaced⟩ :: rest := by
  have hformed := formed_iff.mpr h
  obtain ⟨kind, text, spaced⟩ := lexeme
  obtain rfl : kind = .separator separator := hkind
  have htoken :
      Lexeme.tokenKind? ⟨.separator separator, text, spaced⟩ = some (.separator separator) := rfl
  have hcomposed : Composed lexed.tokens _ := hformed.composed .nil
  rw [Lexeme.rendered_single htoken] at hcomposed
  generalize lexed.tokens = tokens at hcomposed ⊢
  cases hcomposed with
  | single hkind' hrest =>
    cases htoken.symm.trans hkind'
    exact ⟨_, rfl⟩

end Lexed

namespace Body

/-- Every brace among the tokens has its partner among them. -/
inductive Balanced : List Token → Prop
  | nil : Balanced []
  | other {token rest} (hopen : token.isSeparator .braceOpen = false)
    (hclose : token.isSeparator .braceClose = false) (hrest : Balanced rest) :
    Balanced (token :: rest)
  | block {opening inside closing rest} (hopen : opening.isSeparator .braceOpen = true)
    (hinside : Balanced inside) (hclose : closing.isSeparator .braceClose = true)
    (hrest : Balanced rest) : Balanced (opening :: (inside ++ closing :: rest))

variable {depth depth' index : Nat} {token closing : Token} {tokens before body after : List Token}

/-- A token is no other separator than its own. -/
theorem not_close_of_open (h : token.isSeparator .braceOpen = true) :
    token.isSeparator .braceClose = false := by
  unfold Token.isSeparator at h ⊢
  split
  · rename_i separator hkind
    rw [hkind] at h
    obtain rfl : separator = .braceOpen := by simpa using h
    rfl
  · rfl

theorem not_open_of_close (h : token.isSeparator .braceClose = true) :
    token.isSeparator .braceOpen = false := by
  cases hopen : token.isSeparator .braceOpen with
  | false => rfl
  | true => exact h.symm.trans (not_close_of_open hopen)

/-- The state of the braces with so many more tokens in front. -/
def Balance.shift (count : Nat) : Balance → Balance
  | .nested depth => .nested depth
  | .closedAt index => .closedAt (index + count)

theorem Balance.shift_shift (count count' : Nat) (balance : Balance) :
    (balance.shift count).shift count' = balance.shift (count + count') := by
  cases balance with
  | nested depth => rfl
  | closedAt index => exact congrArg Balance.closedAt (Nat.add_assoc ..)

theorem Balance.shift_zero (balance : Balance) : balance.shift 0 = balance := by
  cases balance <;> rfl

theorem balance_open (h : token.isSeparator .braceOpen = true) :
    balance depth (token :: tokens) = (balance (depth + 1) tokens).shift 1 := by
  rw [balance, if_pos h]
  dsimp only
  cases balance (depth + 1) tokens <;> rfl

theorem balance_close (h : token.isSeparator .braceClose = true) :
    balance (depth + 2) (token :: tokens) = (balance (depth + 1) tokens).shift 1 := by
  rw [balance, if_neg (by simp [not_open_of_close h]), if_pos h, if_neg (by omega)]
  dsimp only [Nat.add_one_sub_one]
  cases balance (depth + 1) tokens <;> rfl

theorem balance_last (h : token.isSeparator .braceClose = true) (hdepth : depth ≤ 1) :
    balance depth (token :: tokens) = .closedAt 0 := by
  rw [balance, if_neg (by simp [not_open_of_close h]), if_pos h, if_pos hdepth]

theorem balance_other (hopen : token.isSeparator .braceOpen = false)
    (hclose : token.isSeparator .braceClose = false) :
    balance depth (token :: tokens) = (balance depth tokens).shift 1 := by
  rw [balance, if_neg (by simp [hopen]), if_neg (by simp [hclose])]
  dsimp only
  cases balance depth tokens <;> rfl

/-- The braces of the tokens are counted on from where others left them. -/
theorem balance_append :
    balance depth (before ++ after) =
      match balance depth before with
      | .nested depth' => (balance depth' after).shift before.length
      | .closedAt index => .closedAt index := by
  induction before generalizing depth with
  | nil => exact (Balance.shift_zero _).symm
  | cons token before ih =>
    cases hopen : token.isSeparator .braceOpen with
    | true =>
      rw [List.cons_append, balance_open hopen, balance_open hopen, ih]
      cases balance (depth + 1) before with
      | nested depth' => exact Balance.shift_shift ..
      | closedAt index => rfl
    | false =>
      cases hclose : token.isSeparator .braceClose with
      | false =>
        rw [List.cons_append, balance_other hopen hclose, balance_other hopen hclose, ih]
        cases balance depth before with
        | nested depth' => exact Balance.shift_shift ..
        | closedAt index => rfl
      | true =>
        rcases Nat.lt_or_ge 1 depth with hdepth | hdepth
        · obtain ⟨depth, rfl⟩ := Nat.exists_eq_add_of_le' hdepth
          rw [List.cons_append, balance_close hclose, balance_close hclose, ih]
          cases balance (depth + 1) before with
          | nested depth' => exact Balance.shift_shift ..
          | closedAt index => rfl
        · rw [List.cons_append, balance_last hclose hdepth, balance_last hclose hdepth]

theorem Balance.shift_eq_closedAt {count : Nat} {balance : Balance}
    (h : balance.shift count = .closedAt index) :
    ∃ index', balance = .closedAt index' ∧ index = index' + count := by
  cases balance with
  | nested depth => cases h
  | closedAt index' => exact ⟨index', rfl, (closedAt.inj h).symm⟩

/-- A token stops the count or the count goes on after it. -/
theorem balance_cons (depth : Nat) (token : Token) (tokens : List Token) :
    balance depth (token :: tokens) = .closedAt 0 ∨
      ∃ depth', balance depth (token :: tokens) = (balance depth' tokens).shift 1 := by
  cases hopen : token.isSeparator .braceOpen with
  | true => exact .inr ⟨_, balance_open hopen⟩
  | false =>
    cases hclose : token.isSeparator .braceClose with
    | false => exact .inr ⟨_, balance_other hopen hclose⟩
    | true =>
      rcases Nat.lt_or_ge 1 depth with hdepth | hdepth
      · obtain ⟨depth, rfl⟩ := Nat.exists_eq_add_of_le' hdepth
        exact .inr ⟨_, balance_close hclose⟩
      · exact .inl (balance_last hclose hdepth)

/-- The count stops at one of the tokens. -/
theorem balance_lt (h : balance depth tokens = .closedAt index) : index < tokens.length := by
  induction tokens generalizing depth index with
  | nil => cases h
  | cons token tokens ih =>
    rcases balance_cons depth token tokens with hlast | ⟨depth', hlater⟩
    · cases hlast.symm.trans h
      exact Nat.succ_pos _
    · rw [hlater] at h
      obtain ⟨index, hcount, rfl⟩ := Balance.shift_eq_closedAt h
      exact Nat.succ_lt_succ (ih hcount)

/-- With fewer braces open the count does not stop later. -/
theorem balance_mono (hdepth : depth ≤ depth') (h : balance depth' tokens = .closedAt index) :
    ∃ index' ≤ index, balance depth tokens = .closedAt index' := by
  induction tokens generalizing depth depth' index with
  | nil => cases h
  | cons token tokens ih =>
    cases hopen : token.isSeparator .braceOpen with
    | true =>
      rw [balance_open hopen] at h
      obtain ⟨index, hcount, rfl⟩ := Balance.shift_eq_closedAt h
      obtain ⟨index', hle, hsooner⟩ := ih (Nat.succ_le_succ hdepth) hcount
      exact ⟨index' + 1, Nat.succ_le_succ hle, by rw [balance_open hopen, hsooner]; rfl⟩
    | false =>
      cases hclose : token.isSeparator .braceClose with
      | false =>
        rw [balance_other hopen hclose] at h
        obtain ⟨index, hcount, rfl⟩ := Balance.shift_eq_closedAt h
        obtain ⟨index', hle, hsooner⟩ := ih hdepth hcount
        exact ⟨index' + 1, Nat.succ_le_succ hle, by rw [balance_other hopen hclose, hsooner]; rfl⟩
      | true =>
        rcases Nat.lt_or_ge 1 depth with hdeep | hshallow
        · obtain ⟨depth, rfl⟩ := Nat.exists_eq_add_of_le' hdeep
          obtain ⟨depth', rfl⟩ := Nat.exists_eq_add_of_le' (Nat.lt_of_lt_of_le hdeep hdepth)
          rw [balance_close hclose] at h
          obtain ⟨index, hcount, rfl⟩ := Balance.shift_eq_closedAt h
          obtain ⟨index', hle, hsooner⟩ := ih (Nat.le_of_succ_le_succ hdepth) hcount
          exact ⟨index' + 1, Nat.succ_le_succ hle, by rw [balance_close hclose, hsooner]; rfl⟩
        · exact ⟨0, Nat.zero_le _, balance_last hclose hshallow⟩

/-- What stands in front of the brace where the count stops has been counted. -/
theorem balance_front (h : balance depth (before ++ after) = .closedAt (before.length + index)) :
    ∃ depth', balance depth before = .nested depth' ∧ balance depth' after = .closedAt index := by
  rw [balance_append] at h
  cases hbefore : balance depth before with
  | closedAt index' =>
    rw [hbefore] at h
    have hlt := balance_lt hbefore
    cases h
    omega
  | nested depth' =>
    rw [hbefore] at h
    obtain ⟨index', hafter, hsame⟩ := Balance.shift_eq_closedAt h
    exact ⟨depth', rfl, hafter.trans (congrArg Balance.closedAt (by omega))⟩

/-- Balanced tokens leave the count of open braces as it is. -/
theorem Balanced.balance_append (h : Balanced body) :
    balance (depth + 1) (body ++ after) = (balance (depth + 1) after).shift body.length := by
  induction h generalizing depth after with
  | nil => exact (Balance.shift_zero _).symm
  | other hopen hclose hrest ih =>
    rw [List.cons_append, balance_other hopen hclose, ih, Balance.shift_shift]
    rfl
  | @block opening inside closing rest hopen hinside hclose hrest ihinside ihrest =>
    rw [List.cons_append, List.append_assoc, List.cons_append, balance_open hopen, ihinside,
      balance_close hclose, ihrest, Balance.shift_shift, Balance.shift_shift, Balance.shift_shift]
    congr 1
    simp
    omega

/-- The count stops at the closing brace after balanced tokens. -/
theorem Balanced.closedAt (h : Balanced body) (hclose : closing.isSeparator .braceClose = true) :
    balance 1 (body ++ closing :: after) = .closedAt body.length := by
  rw [h.balance_append, balance_last hclose (Nat.le_refl 1)]
  exact congrArg Balance.closedAt (Nat.zero_add _)

/-- No balanced tokens go on with a brace that would close more. -/
theorem Balanced.not_extends (h : Balanced body) (hclose : closing.isSeparator .braceClose = true) :
    ¬Balanced (body ++ closing :: after) := by
  intro hlonger
  have hnested : balance 1 (body ++ closing :: after ++ []) = _ := hlonger.balance_append
  rw [List.append_nil, h.closedAt hclose] at hnested
  cases hnested

/-- There is one brace that closes what is open. -/
theorem Balanced.unique {body' after' : List Token} {closing' : Token} (h : Balanced body)
    (h' : Balanced body') (hclose : closing.isSeparator .braceClose = true)
    (hclose' : closing'.isSeparator .braceClose = true)
    (hsame : body ++ closing :: after = body' ++ closing' :: after') : body = body' := by
  have hclosed : balance 1 (body ++ closing :: after) = _ := h.closedAt hclose
  rw [hsame, h'.closedAt hclose'] at hclosed
  exact (List.append_inj hsame (Balance.closedAt.inj hclosed).symm).1

/-- Balanced tokens with so many closing braces in between. -/
def Closes : Nat → List Token → Prop
  | 0, tokens => Balanced tokens
  | depth + 1, tokens => ∃ body closing rest, tokens = body ++ closing :: rest ∧ Balanced body ∧
      closing.isSeparator .braceClose = true ∧ Closes depth rest

theorem Closes.other (h : Closes depth tokens) (hopen : token.isSeparator .braceOpen = false)
    (hclose : token.isSeparator .braceClose = false) : Closes depth (token :: tokens) := by
  cases depth with
  | zero => exact .other hopen hclose h
  | succ depth =>
    obtain ⟨body, closing, rest, rfl, hbody, hclosing, hrest⟩ := h
    exact ⟨_ :: body, closing, rest, rfl, .other hopen hclose hbody, hclosing, hrest⟩

/-- An opening brace takes the first of the closing ones. -/
theorem Closes.open (h : Closes (depth + 1) tokens) (hopen : token.isSeparator .braceOpen = true) :
    Closes depth (token :: tokens) := by
  obtain ⟨inside, closing, rest, rfl, hinside, hclosing, hrest⟩ := h
  cases depth with
  | zero => exact .block hopen hinside hclosing hrest
  | succ depth =>
    obtain ⟨body, closing', rest, rfl, hbody, hclosing', hrest⟩ := hrest
    refine ⟨_ :: (inside ++ closing :: body), closing', rest, ?_,
      .block hopen hinside hclosing hbody, hclosing', hrest⟩
    simp

/-- Where the count stops, a brace closes, and the braces opened before are closed. -/
theorem closes_of_closedAt (h : balance (depth + 1) tokens = .closedAt index) :
    ∃ body closing after, tokens = body ++ closing :: after ∧ body.length = index ∧
      closing.isSeparator .braceClose = true ∧ Closes depth body := by
  induction tokens generalizing depth index with
  | nil => cases h
  | cons token tokens ih =>
    have hlater (depth' : Nat) (h : (balance (depth' + 1) tokens).shift 1 = .closedAt index) :
        ∃ body closing after, token :: tokens = (token :: body) ++ closing :: after ∧
          (token :: body).length = index ∧ closing.isSeparator .braceClose = true ∧
            Closes depth' body := by
      cases hbalance : balance (depth' + 1) tokens with
      | nested depth'' =>
        rw [hbalance] at h
        cases h
      | closedAt index' =>
        rw [hbalance] at h
        cases h
        obtain ⟨body, closing, after, rfl, rfl, hclosing, hbody⟩ := ih hbalance
        exact ⟨body, closing, after, rfl, rfl, hclosing, hbody⟩
    cases hopen : token.isSeparator .braceOpen with
    | true =>
      rw [balance_open hopen] at h
      obtain ⟨body, closing, after, htokens, hlength, hclosing, hbody⟩ := hlater _ h
      exact ⟨_, closing, after, htokens, hlength, hclosing, hbody.open hopen⟩
    | false =>
      cases hclose : token.isSeparator .braceClose with
      | false =>
        rw [balance_other hopen hclose] at h
        obtain ⟨body, closing, after, htokens, hlength, hclosing, hbody⟩ := hlater _ h
        exact ⟨_, closing, after, htokens, hlength, hclosing, hbody.other hopen hclose⟩
      | true =>
        cases depth with
        | zero =>
          rw [balance_last hclose (Nat.le_refl 1)] at h
          cases h
          exact ⟨[], token, tokens, rfl, rfl, hclose, .nil⟩
        | succ depth =>
          rw [balance_close hclose] at h
          obtain ⟨body, closing, after, htokens, hlength, hclosing, hbody⟩ := hlater _ h
          exact ⟨_, closing, after, htokens, hlength, hclosing, [], token, body, rfl, .nil, hclose,
            hbody⟩

/-- Counting from one open brace stops at the brace that matches it. -/
theorem balanced_of_closedAt (h : balance 1 tokens = .closedAt index) :
    Balanced (tokens.take index) ∧ ∃ closing after, tokens.drop index = closing :: after ∧
      closing.isSeparator .braceClose = true := by
  obtain ⟨body, closing, after, rfl, rfl, hclosing, hbody⟩ := closes_of_closedAt h
  rw [List.take_left, List.drop_left]
  exact ⟨hbody, closing, after, rfl, hclosing⟩

/-- Balanced tokens are those that leave the count as it is. -/
theorem balanced_iff : Balanced tokens ↔ balance 1 tokens = .nested 1 := by
  constructor
  · intro h
    have hcount : balance 1 (tokens ++ []) = _ := h.balance_append
    rwa [List.append_nil] at hcount
  · intro h
    have hclosed : balance 1 (tokens ++ [⟨.separator .braceClose, "\x7d", true⟩]) =
        .closedAt tokens.length := by
      rw [balance_append, h]
      exact congrArg Balance.closedAt (Nat.zero_add _)
    obtain ⟨hinside, -⟩ := balanced_of_closedAt hclosed
    rwa [List.take_left] at hinside

instance : Decidable (Balanced tokens) := decidable_of_iff _ balanced_iff.symm

/-- The first token of a line that opens a body is the brace. -/
theorem opens_of_opensWithBrace {line : Text.SourceLine} {lexed : Lexed}
    (hopens : opensWithBrace line = true) (hlexed : Lexed.ofLine line.text = .ok lexed) :
    ∃ opening others, lexed.tokens = opening :: others ∧
      opening.isSeparator .braceOpen = true := by
  unfold Lexed.ofLine Lexed.ofChars at hlexed
  split at hlexed
  · cases hlexed
  · rename_i lexemes hscan
    obtain ⟨lexeme, others, rfl, hkind⟩ := Lexeme.scan_braceOpen hscan (eq_of_beq hopens)
    obtain ⟨rest, htokens⟩ := Lexed.opens_of_ofLexemes hlexed hkind
    exact ⟨_, rest, htokens, rfl⟩

end Body

end BuildScript
