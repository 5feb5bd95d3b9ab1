import BuildScript.Proofs.Source.Lexing
import BuildScript.Proofs.Token.Scanning

/-!
String literals. A literal ends at the first quote with an even number of backslashes right before it.
What stands in front of that quote is made of characters for themselves and of pairs that a backslash
begins, so the reader that looks for the end and the one that replaces the pairs cut the text in the
same way, and no backslash is left over at the end.
-/

namespace BuildScript

namespace Lexeme

/-- The number of backslashes that a text ends with. -/
def trailingBackslashes (text : List Char) : Nat := (text.reverse.takeWhile (· == '\\')).length

/-- At the position of the text behind an opening quote there is a quote with an even number of
backslashes right before it. The opening quote ends their count. -/
def MayClose (text : List Char) (position : Nat) : Prop :=
  text[position]? = some '"' ∧ trailingBackslashes (text.take position) % 2 = 0

/-- At the position is the first quote that may close the literal. -/
def Closes (text : List Char) (position : Nat) : Prop :=
  MayClose text position ∧ ∀ earlier < position, ¬MayClose text earlier

/-- What a literal is written with: a character for itself, or a backslash and the character it pairs
up with. -/
inductive Piece where
  | plain (c : Char) (h : c ≠ '\\')
  | pair (c : Char)

namespace Piece

def source : Piece → List Char
  | plain c _ => [c]
  | pair c => ['\\', c]

/-- The character that is meant, if the pair has a meaning. -/
def meaning? : Piece → Option Char
  | plain c _ => some c
  | pair c => Text.escapeMeaning? c

end Piece

/-- The text between the quotes. -/
def sources (pieces : List Piece) : List Char := pieces.flatMap Piece.source

/-- The first pair without meaning is a backslash and the character. -/
def FirstUnknown (pieces : List Piece) (c : Char) : Prop :=
  ∃ front back, pieces = front ++ .pair c :: back ∧ Text.escapeMeaning? c = none ∧
    ∀ piece ∈ front, piece.meaning?.isSome = true

/-- Every pair has a meaning, and the value is the text with each pair replaced. -/
def Means (pieces : List Piece) (value : List Char) : Prop :=
  pieces.map Piece.meaning? = value.map some

variable {c : Char} {text rest more value : List Char} {pieces others : List Piece} {position : Nat}

section Positions

theorem trailingBackslashes_concat (text : List Char) (c : Char) :
    trailingBackslashes (text ++ [c]) = if c = '\\' then trailingBackslashes text + 1 else 0 := by
  unfold trailingBackslashes
  rw [List.reverse_append, List.reverse_singleton, List.singleton_append, List.takeWhile_cons]
  by_cases hc : c = '\\'
  · simp [hc]
  · simp [hc]

theorem even_trailingBackslashes_plain (hc : c ≠ '\\') (text : List Char) :
    trailingBackslashes (c :: text) % 2 = 0 ↔ trailingBackslashes text % 2 = 0 := by
  induction text using List.reverseRecOn with
  | nil =>
    have hsingle := trailingBackslashes_concat [] c
    rw [if_neg hc] at hsingle
    exact iff_of_true (by rw [← List.nil_append [c], hsingle]) rfl
  | append_singleton text d ih =>
    rw [← List.cons_append, trailingBackslashes_concat, trailingBackslashes_concat]
    split
    · omega
    · rfl

/-- The backslash of a pair does not count, whatever it pairs up with. -/
theorem even_trailingBackslashes_pair (c : Char) (text : List Char) :
    trailingBackslashes ('\\' :: c :: text) % 2 = 0 ↔ trailingBackslashes text % 2 = 0 := by
  induction text using List.reverseRecOn with
  | nil =>
    have hpair := trailingBackslashes_concat ['\\'] c
    refine iff_of_true ?_ rfl
    rw [← List.singleton_append, hpair]
    split <;> rfl
  | append_singleton text d ih =>
    rw [← List.cons_append, ← List.cons_append, trailingBackslashes_concat,
      trailingBackslashes_concat]
    split
    · omega
    · rfl

theorem mayClose_cons_plain (hc : c ≠ '\\') :
    MayClose (c :: rest) (position + 1) ↔ MayClose rest position := by
  unfold MayClose
  rw [List.getElem?_cons_succ, List.take_succ_cons, even_trailingBackslashes_plain hc]

theorem mayClose_cons_pair :
    MayClose ('\\' :: c :: rest) (position + 2) ↔ MayClose rest position := by
  unfold MayClose
  rw [List.getElem?_cons_succ, List.getElem?_cons_succ, List.take_succ_cons, List.take_succ_cons,
    even_trailingBackslashes_pair]

theorem mayClose_zero : MayClose text 0 ↔ text.head? = some '"' := by
  unfold MayClose
  rw [List.head?_eq_getElem?]
  exact and_iff_left rfl

/-- A quote that a backslash pairs up with does not close. -/
theorem not_mayClose_one : ¬MayClose ('\\' :: rest) 1 := by
  rintro ⟨hquote, heven⟩
  cases rest with
  | nil => cases hquote
  | cons c rest => cases heven

theorem closes_zero : Closes ('"' :: rest) 0 :=
  ⟨mayClose_zero.mpr rfl, nofun⟩

theorem closes_cons_plain (hc : c ≠ '\\') (hquote : c ≠ '"') :
    Closes (c :: rest) (position + 1) ↔ Closes rest position := by
  unfold Closes
  rw [mayClose_cons_plain hc, Nat.forall_lt_succ_left]
  simp only [mayClose_cons_plain hc, mayClose_zero, List.head?_cons, Option.some_inj, hquote]
  simp

theorem closes_cons_pair :
    Closes ('\\' :: c :: rest) (position + 2) ↔ Closes rest position := by
  unfold Closes
  rw [mayClose_cons_pair, Nat.forall_lt_succ_left, Nat.forall_lt_succ_left]
  simp [mayClose_cons_pair, mayClose_zero, not_mayClose_one]

/-- The position that the reader finds is that of the closing quote. -/
theorem closes_of_quotedLength? (h : quotedLength? rest = some position) : Closes rest position := by
  fun_induction quotedLength? rest generalizing position with
  | case1 => cases h
  | case2 rest =>
    cases h
    exact closes_zero
  | case3 c rest ih =>
    obtain ⟨n, hn, rfl⟩ := Option.map_eq_some_iff.mp h
    exact closes_cons_pair.mpr (ih hn)
  | case4 c rest hquote hpair ih =>
    obtain ⟨n, hn, rfl⟩ := Option.map_eq_some_iff.mp h
    have hc : c ≠ '\\' := by
      rintro rfl
      cases rest with
      | nil => cases hn
      | cons d rest => exact hpair d rest rfl rfl
    exact (closes_cons_plain hc hquote).mpr (ih hn)

theorem Closes.unique {position' : Nat} (h : Closes rest position) (h' : Closes rest position') :
    position = position' := by
  rcases Nat.lt_trichotomy position position' with hlt | heq | hlt
  · exact absurd h.1 (h'.2 _ hlt)
  · exact heq
  · exact absurd h'.1 (h.2 _ hlt)

/-- Where the reader finds no end there is no quote that may close. -/
theorem not_mayClose_of_quotedLength? (h : quotedLength? rest = none) (position : Nat) :
    ¬MayClose rest position := by
  fun_induction quotedLength? rest generalizing position with
  | case1 =>
    rintro ⟨hquote, -⟩
    cases hquote
  | case2 => cases h
  | case3 c rest ih =>
    rcases position with _ | _ | position
    · simp [mayClose_zero]
    · exact not_mayClose_one
    · exact fun hclose => ih (by simpa using h) position (mayClose_cons_pair.mp hclose)
  | case4 c rest hquote hpair ih =>
    have hrest : quotedLength? rest = none := by simpa using h
    cases position with
    | zero => simpa [mayClose_zero] using hquote
    | succ position =>
      by_cases hc : c = '\\'
      · subst hc
        cases rest with
        | nil =>
          rintro ⟨hquote, -⟩
          cases hquote
        | cons d rest => exact absurd rfl (hpair d rest rfl)
      · exact fun hclose => ih hrest position ((mayClose_cons_plain hc).mp hclose)

theorem quotedLength?_eq_some_iff : quotedLength? rest = some position ↔ Closes rest position := by
  refine ⟨closes_of_quotedLength?, fun h => ?_⟩
  cases hlength : quotedLength? rest with
  | none => exact absurd h.1 (not_mayClose_of_quotedLength? hlength position)
  | some n => rw [(closes_of_quotedLength? hlength).unique h]

theorem quotedLength?_eq_none_iff : quotedLength? rest = none ↔ ∀ n, ¬Closes rest n := by
  simp only [← quotedLength?_eq_some_iff]
  exact Option.eq_none_iff_forall_ne_some

end Positions

section Pieces

theorem sources_cons (piece : Piece) (pieces : List Piece) :
    sources (piece :: pieces) = piece.source ++ sources pieces := List.flatMap_cons

/-- The text in front of the closing quote is made of pieces. -/
theorem Closes.exists_pieces (h : Closes rest position) : ∃ pieces more,
    rest = sources pieces ++ '"' :: more ∧ (sources pieces).length = position := by
  have hlength := quotedLength?_eq_some_iff.mpr h
  clear h
  fun_induction quotedLength? rest generalizing position with
  | case1 => cases hlength
  | case2 rest =>
    cases hlength
    exact ⟨[], rest, rfl, rfl⟩
  | case3 c rest ih =>
    obtain ⟨n, hn, rfl⟩ := Option.map_eq_some_iff.mp hlength
    obtain ⟨pieces, more, rfl, rfl⟩ := ih hn
    exact ⟨.pair c :: pieces, more, rfl, rfl⟩
  | case4 c rest hquote hpair ih =>
    obtain ⟨n, hn, rfl⟩ := Option.map_eq_some_iff.mp hlength
    obtain ⟨pieces, more, rfl, rfl⟩ := ih hn
    have hc : c ≠ '\\' := by
      rintro rfl
      obtain ⟨d, others, hothers⟩ := List.exists_cons_of_ne_nil
        (List.append_ne_nil_of_right_ne_nil (sources pieces) (List.cons_ne_nil '"' more))
      exact hpair d others rfl hothers
    exact ⟨.plain c hc :: pieces, more, rfl, rfl⟩

/-- There is one way only to cut a text into pieces. -/
theorem sources_inj (h : sources pieces = sources others) : pieces = others := by
  induction pieces generalizing others with
  | nil =>
    cases others with
    | nil => rfl
    | cons piece others => cases piece <;> cases h
  | cons piece pieces ih =>
    cases others with
    | nil => cases piece <;> cases h
    | cons piece' others =>
      rw [sources_cons, sources_cons] at h
      cases piece with
      | plain c hc =>
        cases piece' with
        | plain d hd =>
          obtain ⟨rfl, hrest⟩ := List.cons.inj h
          rw [ih hrest]
        | pair d => exact absurd (List.cons.inj h).1 hc
      | pair c =>
        cases piece' with
        | plain d hd => exact absurd (List.cons.inj h).1.symm hd
        | pair d =>
          obtain ⟨rfl, hrest⟩ := List.cons.inj (List.cons.inj h).2
          rw [ih hrest]

theorem unescapeChars_plain (hc : c ≠ '\\') (text : List Char) :
    Text.unescapeChars (c :: text) = (Text.unescapeChars text).map (c :: ·) := by
  have hlast : c = '\\' → text = [] → False := fun heq _ => hc heq
  have hpair : ∀ d rest, c = '\\' → text = d :: rest → False := fun _ _ heq _ => hc heq
  exact Text.unescapeChars.eq_4 c text hlast hpair

theorem unescapeChars_pair (c : Char) (text : List Char) :
    Text.unescapeChars ('\\' :: c :: text) = match Text.escapeMeaning? c with
      | none => .error c
      | some meaning => (Text.unescapeChars text).map (meaning :: ·) :=
  Text.unescapeChars.eq_3 c text

/-- A piece that has a meaning is replaced by it. -/
theorem unescapeChars_meaning {piece : Piece} (h : piece.meaning? = some c) :
    Text.unescapeChars (sources (piece :: pieces)) =
      (Text.unescapeChars (sources pieces)).map (c :: ·) := by
  cases piece with
  | plain d hd =>
    cases h
    exact unescapeChars_plain hd (sources pieces)
  | pair d =>
    have hpair := unescapeChars_pair d (sources pieces)
    have hmeaning : Text.escapeMeaning? d = some c := h
    rw [hmeaning] at hpair
    exact hpair

theorem Means.unescapeChars_eq (h : Means pieces value) :
    Text.unescapeChars (sources pieces) = .ok value := by
  induction pieces generalizing value with
  | nil =>
    obtain rfl := List.map_eq_nil_iff.mp h.symm
    rfl
  | cons piece pieces ih =>
    cases value with
    | nil => cases h
    | cons c value =>
      obtain ⟨hpiece, hpieces⟩ := List.cons.inj h
      rw [unescapeChars_meaning hpiece, ih hpieces]
      rfl

theorem FirstUnknown.unescapeChars_eq (h : FirstUnknown pieces c) :
    Text.unescapeChars (sources pieces) = .error c := by
  obtain ⟨front, back, rfl, hnone, hfront⟩ := h
  induction front with
  | nil =>
    have hpair := unescapeChars_pair c (sources back)
    rw [hnone] at hpair
    exact hpair
  | cons piece front ih =>
    obtain ⟨hpiece, hothers⟩ := List.forall_mem_cons.mp hfront
    obtain ⟨d, hd⟩ := Option.isSome_iff_exists.mp hpiece
    rw [List.cons_append, unescapeChars_meaning hd, ih hothers]
    rfl

theorem means_or_firstUnknown (pieces : List Piece) :
    (∃ value, Means pieces value) ∨ ∃ c, FirstUnknown pieces c := by
  induction pieces with
  | nil => exact .inl ⟨[], rfl⟩
  | cons piece pieces ih =>
    cases hpiece : piece.meaning? with
    | some c =>
      rcases ih with ⟨value, hvalue⟩ | ⟨d, front, back, rfl, hnone, hfront⟩
      · exact .inl ⟨c :: value, congrArg₂ List.cons hpiece hvalue⟩
      · refine .inr ⟨d, piece :: front, back, rfl, hnone, List.forall_mem_cons.mpr ⟨?_, hfront⟩⟩
        rw [hpiece]
        rfl
    | none =>
      cases piece with
      | plain d hd => cases hpiece
      | pair d => exact .inr ⟨d, [], pieces, rfl, hpiece, List.forall_mem_nil _⟩

theorem unescapeChars_eq_ok_iff :
    Text.unescapeChars (sources pieces) = .ok value ↔ Means pieces value := by
  refine ⟨fun h => ?_, Means.unescapeChars_eq⟩
  rcases means_or_firstUnknown pieces with ⟨value', hmeans⟩ | ⟨c, hunknown⟩
  · cases hmeans.unescapeChars_eq.symm.trans h
    exact hmeans
  · cases hunknown.unescapeChars_eq.symm.trans h

theorem unescapeChars_eq_error_iff :
    Text.unescapeChars (sources pieces) = .error c ↔ FirstUnknown pieces c := by
  refine ⟨fun h => ?_, FirstUnknown.unescapeChars_eq⟩
  rcases means_or_firstUnknown pieces with ⟨value, hmeans⟩ | ⟨d, hunknown⟩
  · cases hmeans.unescapeChars_eq.symm.trans h
  · cases hunknown.unescapeChars_eq.symm.trans h
    exact hunknown

/-- A pair of two backslashes has a meaning. -/
theorem FirstUnknown.ne_backslash (h : FirstUnknown pieces c) : c ≠ '\\' := by
  obtain ⟨front, back, -, hnone, -⟩ := h
  rintro rfl
  cases hnone

end Pieces

section Reading

/-- The text behind an opening quote has no end, has a pair without meaning in front of its end, or
is a literal; and so it is read. -/
theorem readQuoted_cases (rest : List Char) :
    ((∀ n, ¬Closes rest n) ∧ readQuoted rest = .error .unterminatedString) ∨
      ∃ pieces more, rest = sources pieces ++ '"' :: more ∧ Closes rest (sources pieces).length ∧
        ((∃ c, FirstUnknown pieces c ∧ readQuoted rest = .error (.unknownEscape c)) ∨
          ∃ value, Means pieces value ∧
            readQuoted rest = .ok (.quoted (String.ofList value), (sources pieces).length + 1)) := by
  unfold readQuoted
  cases hlength : quotedLength? rest with
  | none => exact .inl ⟨quotedLength?_eq_none_iff.mp hlength, rfl⟩
  | some n =>
    have hcloses := quotedLength?_eq_some_iff.mp hlength
    obtain ⟨pieces, more, rfl, rfl⟩ := hcloses.exists_pieces
    refine .inr ⟨pieces, more, rfl, hcloses, ?_⟩
    dsimp only
    rw [List.take_left]
    cases hresult : Text.unescapeChars (sources pieces) with
    | error c => exact .inl ⟨c, unescapeChars_eq_error_iff.mp hresult, rfl⟩
    | ok value => exact .inr ⟨value, unescapeChars_eq_ok_iff.mp hresult, rfl⟩

/-- The literal behind an opening quote ends where it should and has a pair whose meaning is unknown. -/
def HasUnknown (rest : List Char) (c : Char) : Prop :=
  ∃ pieces more, rest = sources pieces ++ '"' :: more ∧ Closes rest (sources pieces).length ∧
    FirstUnknown pieces c

theorem readQuoted_eq_unterminated_iff :
    readQuoted rest = .error .unterminatedString ↔ ∀ n, ¬Closes rest n := by
  rcases readQuoted_cases rest with ⟨hnone, herror⟩ | ⟨pieces, more, rfl, hcloses, hpieces⟩
  · exact iff_of_true herror hnone
  · refine iff_of_false ?_ fun hnone => hnone _ hcloses
    rcases hpieces with ⟨c, -, herror⟩ | ⟨value, -, hvalue⟩
    · rw [herror]
      rintro ⟨⟩
    · rw [hvalue]
      rintro ⟨⟩

theorem readQuoted_eq_unknown_iff :
    readQuoted rest = .error (.unknownEscape c) ↔ HasUnknown rest c := by
  rcases readQuoted_cases rest with ⟨hnone, herror⟩ | ⟨pieces, more, rfl, hcloses, hpieces⟩
  · rw [herror]
    refine iff_of_false (by rintro ⟨⟩) ?_
    rintro ⟨pieces, more, -, hcloses, -⟩
    exact hnone _ hcloses
  · -- The cut of the text into pieces is the only one.
    have hsame {pieces' : List Piece} {more' : List Char}
        (hrest : sources pieces ++ '"' :: more = sources pieces' ++ '"' :: more')
        (hcloses' : Closes (sources pieces ++ '"' :: more) (sources pieces').length) :
        pieces' = pieces :=
      (sources_inj (List.append_inj hrest (hcloses.unique hcloses')).1).symm
    rcases hpieces with ⟨d, hunknown, herror⟩ | ⟨value, hmeans, hvalue⟩
    · rw [herror]
      constructor
      · rintro ⟨⟩
        exact ⟨pieces, more, rfl, hcloses, hunknown⟩
      · rintro ⟨pieces', more', hrest, hcloses', hunknown'⟩
        obtain rfl := hsame hrest hcloses'
        cases hunknown.unescapeChars_eq.symm.trans hunknown'.unescapeChars_eq
        rfl
    · rw [hvalue]
      refine iff_of_false (by rintro ⟨⟩) ?_
      rintro ⟨pieces', more', hrest, hcloses', hunknown⟩
      obtain rfl := hsame hrest hcloses'
      cases hmeans.unescapeChars_eq.symm.trans hunknown.unescapeChars_eq

/-- The errors that only a literal in quotes has. -/
def IsQuoteError (e : SyntaxError) : Prop :=
  e = .unterminatedString ∨ ∃ c, e = .unknownEscape c

theorem readNumber_not_quoteError {e : SyntaxError} (h : readNumber c rest = .error e) :
    ¬IsQuoteError e := by
  unfold readNumber at h
  dsimp only at h
  split at h
  · split at h
    · split at h <;> cases h
      rintro (⟨⟨⟩⟩ | ⟨_, ⟨⟩⟩)
    · cases h
  · split at h <;> cases h
    rintro (⟨⟨⟩⟩ | ⟨_, ⟨⟩⟩)

theorem read_quoteError_iff {e : SyntaxError} (he : IsQuoteError e) :
    read c rest = .error e ↔ c = '"' ∧ readQuoted rest = .error e := by
  unfold read
  split
  · rename_i hquote
    exact (and_iff_right (eq_of_beq hquote)).symm
  · rename_i hquote
    have hc : c ≠ '"' := by simpa using hquote
    refine iff_of_false (fun h => ?_) fun h => hc h.1
    split at h
    · exact readNumber_not_quoteError h he
    split at h
    · cases h
    split at h
    · cases h
    split at h
    · cases h
    · cases h
      rcases he with ⟨⟨⟩⟩ | ⟨_, ⟨⟩⟩

/-- A scan fails for a literal at the first opening quote it gets to that begins none. -/
theorem scan_quoteError_iff {e : SyntaxError} (he : IsQuoteError e) {spaced : Bool} :
    scan spaced text = .error e ↔ ∃ lexemes spaced' rest,
      Passes spaced text lexemes spaced' ('"' :: rest) ∧ readQuoted rest = .error e := by
  rw [scan_eq_error_iff]
  constructor
  · rintro ⟨lexemes, spaced', c, rest, hpasses, -, -, hread⟩
    obtain ⟨rfl, hquoted⟩ := (read_quoteError_iff he).mp hread
    exact ⟨lexemes, spaced', rest, hpasses, hquoted⟩
  · rintro ⟨lexemes, spaced', rest, hpasses, hquoted⟩
    exact ⟨lexemes, spaced', '"', rest, hpasses, rfl, rfl, hquoted⟩

end Reading

end Lexeme

namespace Lexed

open Lexeme (Passes Closes Piece sources FirstUnknown Means HasUnknown IsQuoteError)

variable {done : List Token} {lexemes rest front : List Lexeme} {lexed : Lexed} {lexeme : Lexeme}
  {kind : TokenKind} {e : SyntaxError}

theorem ofLexemes_not_quoteError (h : ofLexemes done lexemes = .error e) : ¬IsQuoteError e := by
  fun_induction ofLexemes done lexemes with
  | case1 | case2 => cases h
  | case3 | case4 | case7 =>
    cases h
    rintro (⟨⟨⟩⟩ | ⟨_, ⟨⟩⟩)
  | case8 done value text spaced rest e' hpush =>
    cases h
    unfold pushMagnitude at hpush
    split at hpush
    · cases hpush
    split at hpush
    · split at hpush <;> cases hpush
      rintro (⟨⟨⟩⟩ | ⟨_, ⟨⟩⟩)
    · cases hpush
      rintro (⟨⟨⟩⟩ | ⟨_, ⟨⟩⟩)
  | case5 _ _ _ _ ih | case6 _ _ _ _ _ _ ih | case9 _ _ _ _ _ _ _ ih | case10 _ _ _ _ ih
  | case11 _ _ _ _ _ ih | case12 _ _ _ _ _ ih | case13 _ _ _ _ _ ih | case14 _ _ _ _ _ ih =>
    exact ih h

/-- The lexemes of a line form its tokens up to one that is a token by itself and is no word, which a
point in front might take. -/
theorem Formed.at_single (h : Formed done (front ++ lexeme :: rest) lexed)
    (hkind : lexeme.tokenKind? = some kind) (hword : lexeme.kind ≠ .word) :
    ∃ done', Formed done front ⟨done'.reverse, false⟩ ∧
      Formed (⟨kind, lexeme.text, lexeme.spaced⟩ :: done') rest lexed := by
  generalize hall : front ++ lexeme :: rest = all at h
  induction h generalizing front with
  | done => simp at hall
  | @continued done text spaced =>
    cases front with
    | nil =>
      obtain ⟨rfl, -⟩ := List.cons.inj hall
      cases hkind
    | cons first front => simp at hall
  | @single done kind' rest' lexed first hfirst hrest ih =>
    cases front with
    | nil =>
      obtain ⟨rfl, rfl⟩ := List.cons.inj hall
      obtain rfl : kind = kind' := Option.some_inj.mp (hkind.symm.trans hfirst)
      exact ⟨done, .done, hrest⟩
    | cons first' front =>
      obtain ⟨rfl, hothers⟩ := List.cons.inj hall
      obtain ⟨done', hfront, hbehind⟩ := ih hothers
      exact ⟨done', .single hfirst hfront, hbehind⟩
  | @ownMember done point word rest' lexed hrest ih =>
    match front with
    | [] =>
      obtain ⟨rfl, -⟩ := List.cons.inj hall
      cases hkind
    | [_] =>
      obtain ⟨-, hothers⟩ := List.cons.inj hall
      obtain ⟨rfl, -⟩ := List.cons.inj hothers
      exact absurd rfl hword
    | _ :: _ :: front =>
      obtain ⟨hpoint, hothers⟩ := List.cons.inj hall
      obtain ⟨hglued, hothers⟩ := List.cons.inj hothers
      obtain ⟨done', hfront, hbehind⟩ := ih hothers
      rw [hpoint, hglued]
      exact ⟨done', .ownMember hfront, hbehind⟩
  | @member done point word rest' lexed hrest ih =>
    match front with
    | [] =>
      obtain ⟨rfl, -⟩ := List.cons.inj hall
      cases hkind
    | [_] =>
      obtain ⟨-, hothers⟩ := List.cons.inj hall
      obtain ⟨rfl, -⟩ := List.cons.inj hothers
      exact absurd rfl hword
    | _ :: _ :: front =>
      obtain ⟨hpoint, hothers⟩ := List.cons.inj hall
      obtain ⟨hglued, hothers⟩ := List.cons.inj hothers
      obtain ⟨done', hfront, hbehind⟩ := ih hothers
      rw [hpoint, hglued]
      exact ⟨done', .member hfront, hbehind⟩
  | @negative before minus value text minusSpaced spaced rest' lexed hvalue hsign hrest ih =>
    cases front with
    | nil =>
      obtain ⟨rfl, rfl⟩ := List.cons.inj hall
      unfold Lexeme.tokenKind? at hkind
      dsimp only at hkind
      rw [if_neg hvalue] at hkind
      cases hkind
    | cons first front =>
      obtain ⟨rfl, hothers⟩ := List.cons.inj hall
      obtain ⟨done', hfront, hbehind⟩ := ih hothers
      exact ⟨done', .negative hvalue hsign hfront, hbehind⟩

/-- Errors of string literals are errors of the scan. -/
theorem ofLine_quoteError_iff {line : String} (he : IsQuoteError e) :
    ofLine line = .error e ↔ ∃ lexemes spaced rest,
      Passes true line.toList lexemes spaced ('"' :: rest) ∧ Lexeme.readQuoted rest = .error e := by
  rw [← Lexeme.scan_quoteError_iff he, ofLine, ofChars]
  cases hscan : Lexeme.scan true line.toList with
  | error e' => simp only [Except.error.injEq]
  | ok lexemes =>
    refine iff_of_false (fun h => ofLexemes_not_quoteError h he) (fun h => ?_)
    cases h

/-- The literal that an opening quote begins is a token by itself, with the text from quote to quote,
and reading goes on right behind it. -/
structure ReadsLiteral (line : String) (lexemes : List Lexeme) (spaced : Bool) (pieces : List Piece)
    (more value : List Char) : Prop where
  passes : Passes true line.toList (lexemes ++ [⟨.quoted (String.ofList value),
    String.ofList ('"' :: sources pieces ++ ['"']), spaced⟩]) false more
  token : ∀ lexed, ofLine line = .ok lexed → ∃ front back,
    ofLexemes [] lexemes = .ok ⟨front, false⟩ ∧ lexed.tokens = front ++
      ⟨.literal (.string (String.ofList value)), String.ofList ('"' :: sources pieces ++ ['"']),
        spaced⟩ :: back

theorem readsLiteral {line : String} {spaced : Bool} {pieces : List Piece} {more value : List Char}
    (hpasses : Passes true line.toList lexemes spaced ('"' :: (sources pieces ++ '"' :: more)))
    (hread : Lexeme.readQuoted (sources pieces ++ '"' :: more) =
      .ok (.quoted (String.ofList value), (sources pieces).length + 1)) :
    ReadsLiteral line lexemes spaced pieces more value := by
  have hlength : (sources pieces ++ ['"']).length = (sources pieces).length + 1 := by simp
  have hsplit : sources pieces ++ '"' :: more = (sources pieces ++ ['"']) ++ more := by simp
  have hliteral : Passes spaced ('"' :: (sources pieces ++ '"' :: more))
      [⟨.quoted (String.ofList value), String.ofList ('"' :: sources pieces ++ ['"']), spaced⟩] false
      more := by
    rw [hsplit, ← hlength] at hread
    rw [hsplit]
    have hquote : Lexeme.read '"' (sources pieces ++ ['"'] ++ more) =
        .ok (.quoted (String.ofList value), (sources pieces ++ ['"']).length) := hread
    have hrest : Passes false ((sources pieces ++ ['"'] ++ more).drop
        (sources pieces ++ ['"']).length) [] false more := by
      rw [List.drop_left]
      exact .here
    have hstep : Passes spaced ('"' :: (sources pieces ++ ['"'] ++ more)) _ false more :=
      .lexeme rfl rfl hquote hrest
    rw [List.take_left] at hstep
    exact hstep
  have hbehind := hpasses.trans hliteral
  refine ⟨hbehind, fun lexed hlexed => ?_⟩
  rw [ofLine, ofChars, hbehind.scan_eq] at hlexed
  cases hmore : Lexeme.scan false more with
  | error e =>
    rw [hmore] at hlexed
    cases hlexed
  | ok others =>
    rw [hmore] at hlexed
    simp only [Except.map, List.append_assoc, List.singleton_append] at hlexed
    obtain ⟨done, hfront, hformed⟩ := (formed_iff.mpr hlexed).at_single rfl (by rintro ⟨⟩)
    obtain ⟨back, hback⟩ := hformed.keeps (List.suffix_refl _) (by rintro _ ⟨⟩ ⟨⟩)
    refine ⟨done.reverse, back, formed_iff.mp hfront, ?_⟩
    rw [← hback, List.reverse_cons, List.append_assoc]
    rfl

/-- A string in quotes, with a backslash before each backslash and quote, is the literal of the string. -/
theorem ofLine_escaped (value : String) :
    ofLine ("\"" ++ String.ofList (escaped value.toList) ++ "\"") =
      .ok ⟨[⟨.literal (.string value), "\"" ++ String.ofList (escaped value.toList) ++ "\"", true⟩],
        false⟩ := by
  let lexeme : Lexeme :=
    ⟨.quoted value, "\"" ++ String.ofList (escaped value.toList) ++ "\"", true⟩
  have hspells := Lexeme.Spells.quoted (quotedLength?_escaped value.toList)
    (unescapeChars_escaped value.toList)
  rw [String.ofList_toList] at hspells
  have htext : lexeme.text.toList = '"' :: (escaped value.toList ++ ['"']) := by simp [lexeme]
  have hfits : lexeme.Fits ([] : List Char).head? := ⟨'"', _, _, htext, hspells, nofun⟩
  have hscan : Lexeme.scan true lexeme.text.toList = .ok [lexeme] := by
    have hempty : Lexeme.scan false [] = .ok [] := by rw [Lexeme.scan]
    rw [← List.append_nil lexeme.text.toList]
    exact hfits.scan_append hempty
  have hkind : lexeme.tokenKind? = some (.literal (.string value)) := rfl
  change ofChars lexeme.text.toList = _
  rw [ofChars, hscan]
  dsimp only
  rw [ofLexemes_single hkind, ofLexemes]
  rfl

/-- A literal ends at the first quote behind the opening one that an even number of backslashes stands
in front of. It is unterminated if there is none. In front of that quote are characters and pairs, and
the first pair without meaning is the error, which is never a second backslash; if there is none, the
value is the text with every pair replaced. So every string is the value of a literal. -/
theorem string_literals (line : String) :
    (∀ lexemes spaced rest, Passes true line.toList lexemes spaced ('"' :: rest) →
      (∃ before, line.toList = before ++ '"' :: rest ∧ Lexeme.scan true before = .ok lexemes) ∧
        ((∀ n, ¬Closes rest n) ∧ ofLine line = .error .unterminatedString ∨
          ∃ pieces more, rest = sources pieces ++ '"' :: more ∧ Closes rest (sources pieces).length ∧
            ((∃ c, FirstUnknown pieces c ∧ c ≠ '\\' ∧ ofLine line = .error (.unknownEscape c)) ∨
              ∃ value, Means pieces value ∧
                ReadsLiteral line lexemes spaced pieces more value))) ∧
      (ofLine line = .error .unterminatedString ↔ ∃ lexemes spaced rest,
        Passes true line.toList lexemes spaced ('"' :: rest) ∧ ∀ n, ¬Closes rest n) ∧
      (∀ c, ofLine line = .error (.unknownEscape c) ↔ ∃ lexemes spaced rest,
        Passes true line.toList lexemes spaced ('"' :: rest) ∧ HasUnknown rest c) ∧
      ∀ value : String, ofLine ("\"" ++ String.ofList (escaped value.toList) ++ "\"") =
        .ok ⟨[⟨.literal (.string value), "\"" ++ String.ofList (escaped value.toList) ++ "\"",
          true⟩], false⟩ := by
  refine ⟨fun lexemes spaced rest hpasses => ⟨hpasses.exists_before, ?_⟩, ?_, fun c => ?_,
    fun value => ?_⟩
  · rcases Lexeme.readQuoted_cases rest with ⟨hnone, herror⟩ | ⟨pieces, more, rfl, hcloses, hpieces⟩
    · exact .inl ⟨hnone, (ofLine_quoteError_iff (.inl rfl)).mpr ⟨_, _, _, hpasses, herror⟩⟩
    · refine .inr ⟨pieces, more, rfl, hcloses, ?_⟩
      rcases hpieces with ⟨c, hunknown, herror⟩ | ⟨value, hmeans, hvalue⟩
      · exact .inl ⟨c, hunknown, hunknown.ne_backslash,
          (ofLine_quoteError_iff (.inr ⟨c, rfl⟩)).mpr ⟨_, _, _, hpasses, herror⟩⟩
      · exact .inr ⟨value, hmeans, readsLiteral hpasses hvalue⟩
  · simp only [ofLine_quoteError_iff (.inl rfl), Lexeme.readQuoted_eq_unterminated_iff]
  · simp only [ofLine_quoteError_iff (.inr ⟨c, rfl⟩), Lexeme.readQuoted_eq_unknown_iff]
  · exact ofLine_escaped value

/-- A backslash before the only further quote leaves the literal open. -/
theorem escapedQuote_unterminated :
    Passes true "x = \"a\\\"".toList [⟨.word, String.ofList ['x'], true⟩,
        ⟨.operator .assign, String.ofList ['='], true⟩] true ['"', 'a', '\\', '"'] ∧
      (∀ n, ¬Closes ['a', '\\', '"'] n) ∧
      ofLine "x = \"a\\\"" = .error .unterminatedString := by
  have hpasses : Passes true ['x', ' ', '=', ' ', '"', 'a', '\\', '"'] [⟨.word, String.ofList ['x'],
      true⟩, ⟨.operator .assign, String.ofList ['='], true⟩] true ['"', 'a', '\\', '"'] :=
    .lexeme (n := 0) rfl rfl rfl (.gap rfl (.lexeme (n := 0) rfl rfl rfl (.gap rfl .here)))
  have hnone : ∀ n, ¬Closes ['a', '\\', '"'] n := Lexeme.quotedLength?_eq_none_iff.mp rfl
  exact ⟨hpasses, hnone, (string_literals _).2.1.mpr ⟨_, _, _, hpasses, hnone⟩⟩

end Lexed

end BuildScript
