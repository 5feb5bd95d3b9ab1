import BuildScript.Proofs.Token.Composing

/-!
The seams of a line. A line that goes on is cut at its mark, and other text is put behind the cut
with a blank in between. The lexemes on either side of the seam are those of the two texts. What they
form is decided by the tokens in front in one respect only: whether a minus there may be the sign of
the lowest integer.
-/

namespace BuildScript

namespace Lexeme

/-- The text before the mark that the line goes on, and all of a text without the mark. -/
def unmarked : List Char → List Char
  | [] => []
  | c :: rest =>
    if isGap c then c :: unmarked rest
    else if c == '/' && rest.head? == some '/' then c :: rest
    else
      match read c rest with
      | .error _ => c :: rest
      | .ok (.ellipsis, _) => []
      | .ok (_, n) => c :: rest.take n ++ unmarked (rest.drop n)
termination_by text => text.length
decreasing_by
  · simp
  · simp only [List.length_cons, List.length_drop]
    omega

variable {text : List Char} {lexemes : List Lexeme} {mark : Lexeme} {spaced : Bool}

theorem head?_unmarked (text : List Char) :
    (unmarked text).head? = none ∨ (unmarked text).head? = text.head? := by
  fun_cases unmarked text with
  | case1 | case5 => exact .inl rfl
  | _ => exact .inr rfl

/-- No lexeme begins with a line feed. -/
theorem read_lineFeed (rest : List Char) :
    read '\n' rest = .error (.unexpectedCharacter "\n") := rfl

/-- What follows a comment, if it is scanned, has no lexemes. -/
theorem scan_after_comment (h : scan spaced (text.dropWhile (· != '\n')) = .ok lexemes) :
    lexemes = [] := by
  have hstop := List.head?_dropWhile_not (· != '\n') text
  generalize text.dropWhile (· != '\n') = after at h hstop
  cases after with
  | nil =>
    rw [scan] at h
    exact (Except.ok.inj h).symm
  | cons c rest =>
    obtain rfl : c = '\n' := by simpa using hstop
    rw [scan, read_lineFeed] at h
    cases h

/-- Text behind the cut is scanned as by itself, after the lexemes in front of the mark. -/
theorem scan_unmarked (h : scan spaced text = .ok (lexemes ++ [mark]))
    (hmark : mark.kind = .ellipsis) (hothers : ∀ lexeme ∈ lexemes, lexeme.kind ≠ .ellipsis)
    (more : List Char) :
    scan spaced (unmarked text ++ ' ' :: more) = (scan true more).map (lexemes ++ ·) := by
  generalize hlexemes : lexemes ++ [mark] = marked at h
  fun_induction scan spaced text generalizing lexemes marked with
  | case1 spaced =>
    cases h
    simp at hlexemes
  | case2 spaced c rest hgap ih =>
    rw [unmarked, if_pos hgap, List.cons_append, scan, if_pos hgap]
    exact ih hothers _ hlexemes h
  | case3 spaced c rest hgap hcomment ih =>
    obtain rfl := scan_after_comment h
    simp at hlexemes
  | case4 spaced c rest hgap hcomment e hread
  | case5 spaced c rest hgap hcomment kind n hread e hrest ih =>
    cases h
  | case6 spaced c rest hgap hcomment kind n hread others hrest ih =>
    cases h
    cases lexemes with
    | nil =>
      obtain ⟨rfl, rfl⟩ := List.cons.inj hlexemes
      obtain rfl : kind = .ellipsis := hmark
      rw [unmarked, if_neg hgap, if_neg hcomment, hread]
      dsimp only
      rw [List.nil_append, scan_blank]
      cases scan true more <;> rfl
    | cons lexeme lexemes =>
      obtain ⟨rfl, hmarked⟩ := List.cons.inj hlexemes
      obtain ⟨hkind, hrestKinds⟩ := List.forall_mem_cons.mp hothers
      have hslash : c = '/' → rest.head? ≠ some '/' := by
        rintro rfl hslash
        exact hcomment (by rw [hslash]; rfl)
      obtain ⟨cs, after, glues, rfl, rfl, hspells, hglues⟩ := spells_of_read hslash hread
      rw [List.drop_left] at ih hrest
      have hfits : Fits ⟨kind, String.ofList (c :: cs), spaced⟩
          (unmarked after ++ ' ' :: more).head? := by
        refine ⟨c, cs, glues, String.toList_ofList, hspells, ?_⟩
        rw [List.head?_append]
        rcases head?_unmarked after with hnone | hsame
        · rw [hnone]
          rintro _ ⟨⟩
          exact hspells.blank
        · rw [hsame]
          cases after with
          | nil =>
            rintro _ ⟨⟩
            exact hspells.blank
          | cons d after => exact hglues
      have hcut : unmarked (c :: (cs ++ after)) = c :: cs ++ unmarked after := by
        rw [unmarked, if_neg hgap, if_neg hcomment, hread]
        cases kind with
        | ellipsis => exact absurd rfl hkind
        | _ =>
          dsimp only
          rw [List.take_left, List.drop_left]
      have hscan := hfits.scan_eq spaced
      rw [String.toList_ofList, ih hrestKinds _ hmarked hrest] at hscan
      rw [hcut, List.append_assoc, hscan, List.take_left]
      cases scan true more <;> rfl

end Lexeme

namespace Lexed

open Lexeme (scan unmarked)

variable {done done' kept before : List Token} {lexemes rest : List Lexeme} {lexed lexed' : Lexed}
  {lexeme : Lexeme} {kind : TokenKind}

/-- A line that goes on is a line that does not, with the mark behind it. -/
theorem Formed.before_mark (h : Formed done lexemes lexed) (hmark : lexed.continuation = true) :
    ∃ front mark, lexemes = front ++ [mark] ∧ mark.kind = .ellipsis ∧
      (∀ lexeme ∈ front, lexeme.kind ≠ .ellipsis) ∧ Formed done front ⟨lexed.tokens, false⟩ := by
  induction h with
  | done => cases hmark
  | continued => exact ⟨[], _, rfl, rfl, List.forall_mem_nil _, .done⟩
  | @single done kind rest lexed lexeme hkind hrest ih =>
    obtain ⟨front, mark, rfl, hellipsis, hfront, hformed⟩ := ih hmark
    refine ⟨lexeme :: front, mark, rfl, hellipsis, ?_, .single hkind hformed⟩
    refine List.forall_mem_cons.mpr ⟨fun hlexeme => ?_, hfront⟩
    rw [Lexeme.tokenKind?, hlexeme] at hkind
    cases hkind
  | ownMember hrest ih =>
    obtain ⟨front, mark, rfl, hellipsis, hfront, hformed⟩ := ih hmark
    exact ⟨_ :: _ :: front, mark, rfl, hellipsis, by simpa using hfront, .ownMember hformed⟩
  | member hrest ih =>
    obtain ⟨front, mark, rfl, hellipsis, hfront, hformed⟩ := ih hmark
    exact ⟨_ :: _ :: front, mark, rfl, hellipsis, by simpa using hfront, .member hformed⟩
  | negative hvalue hsign hrest ih =>
    obtain ⟨front, mark, rfl, hellipsis, hfront, hformed⟩ := ih hmark
    exact ⟨_ :: front, mark, rfl, hellipsis, by simpa using hfront, .negative hvalue hsign hformed⟩

theorem formed_single (h : lexeme.tokenKind? = some kind) : Formed done (lexeme :: rest) lexed ↔
    Formed (⟨kind, lexeme.text, lexeme.spaced⟩ :: done) rest lexed := by
  rw [formed_iff, formed_iff, ofLexemes_single h]

theorem formed_ownMember {point word : String} :
    Formed done (⟨.dot, point, true⟩ :: ⟨.word, word, false⟩ :: rest) lexed ↔
      Formed (⟨.ownMember word, point ++ word, true⟩ :: done) rest lexed := by
  rw [formed_iff, formed_iff, ofLexemes]
  rfl

theorem formed_member {point word : String} :
    Formed done (⟨.dot, point, false⟩ :: ⟨.word, word, false⟩ :: rest) lexed ↔
      Formed (⟨wordKind word, word, false⟩ :: ⟨.operator .member, point, false⟩ :: done) rest
        lexed := by
  rw [formed_iff, formed_iff, ofLexemes]
  rfl

theorem formed_negative {value : Nat} {minus text : String} {minusSpaced spaced : Bool}
    (hvalue : ¬value < Lexeme.largestMagnitude) :
    Formed (⟨.operator .subtract, minus, minusSpaced⟩ :: before)
        (⟨.magnitude value, text, spaced⟩ :: rest) lexed ↔
      signAfter before.head? = true ∧
        Formed (⟨.literal (.int Int32.minValue), "-" ++ text, minusSpaced⟩ :: before) rest lexed := by
  refine ⟨fun h => ?_, fun ⟨hsign, hrest⟩ => .negative hvalue hsign hrest⟩
  cases h with
  | single hkind hrest =>
    obtain ⟨⟩ := (if_neg hvalue).symm.trans hkind
  | negative _ hsign hrest => exact ⟨hsign, hrest⟩

/-- Tokens that do not end with a minus stay as they are. -/
theorem Formed.keeps (h : Formed done lexemes lexed) (hkept : kept <:+ done)
    (hminus : ∀ token ∈ kept.head?, token.kind ≠ .operator .subtract) :
    kept.reverse <+: lexed.tokens := by
  induction h with
  | done | continued => exact List.reverse_prefix.mpr hkept
  | single hkind hrest ih | ownMember hrest ih => exact ih (hkept.trans (List.suffix_cons _ _))
  | member hrest ih =>
    exact ih ((hkept.trans (List.suffix_cons _ _)).trans (List.suffix_cons _ _))
  | negative hvalue hsign hrest ih =>
    rcases List.suffix_cons_iff.mp hkept with rfl | hbefore
    · exact absurd rfl (hminus _ rfl)
    · exact ih (hbefore.trans (List.suffix_cons _ _))

theorem signed_snoc {front : Option Token} {token : Token}
    (hkind : token.kind ≠ .literal (.int Int32.minValue)) :
    Signed front (token :: done).reverse ↔ Signed front done.reverse := by
  rw [List.reverse_cons, signed_append]
  exact ⟨And.left, fun h => ⟨h, fun hmin => absurd hmin hkind, trivial⟩⟩

/-- Lexemes that form tokens by themselves form the same tokens behind others, if every lowest
integer among them is still signed there; and the lexemes after them find these tokens in front. -/
theorem Formed.behind (h : Formed done lexemes lexed) (hstops : lexed.continuation = false)
    (hdone : Signed before.head? done.reverse) :
    Formed (done ++ before) (lexemes ++ rest) lexed' ↔
      Signed before.head? lexed.tokens ∧ Formed (lexed.tokens.reverse ++ before) rest lexed' := by
  induction h with
  | @done done =>
    rw [List.reverse_reverse]
    exact (and_iff_right hdone).symm
  | continued => cases hstops
  | @single done kind lexemes lexed lexeme hkind hrest ih =>
    rw [List.cons_append, formed_single hkind]
    refine ih hstops ((signed_snoc fun hmin => ?_).mpr hdone)
    exact tokenKind?_ne_minValue lexeme (hkind.trans (congrArg some hmin))
  | ownMember hrest ih =>
    rw [List.cons_append, List.cons_append, formed_ownMember]
    exact ih hstops ((signed_snoc (by rintro ⟨⟩)).mpr hdone)
  | @member done point word lexemes lexed hrest ih =>
    rw [List.cons_append, List.cons_append, formed_member]
    refine ih hstops ((signed_snoc fun hmin => ?_).mpr ((signed_snoc (by rintro ⟨⟩)).mpr hdone))
    exact tokenKind?_ne_minValue ⟨.word, word, false⟩ (congrArg some hmin)
  | @negative front minus value text minusSpaced spaced lexemes lexed hvalue hsign hrest ih =>
    rw [List.cons_append, List.cons_append, formed_negative hvalue]
    have hfront : Signed before.head? front.reverse := (signed_snoc (by rintro ⟨⟩)).mp hdone
    by_cases hstill : signAfter (front ++ before).head? = true
    · rw [and_iff_right hstill]
      refine ih hstops ?_
      rw [List.reverse_cons, signed_append, List.getLast?_reverse, ← List.head?_append]
      exact ⟨hfront, fun _ => hstill, trivial⟩
    · -- The minus is the first token, and what stands in front makes it a subtraction.
      refine iff_of_false (fun h => hstill h.1) fun ⟨hsigned, _⟩ => ?_
      obtain ⟨tail, htail⟩ := hrest.keeps (List.suffix_refl _) (by rintro _ ⟨⟩ ⟨⟩)
      rw [← htail, List.reverse_cons, List.append_assoc, signed_append,
        List.getLast?_reverse, ← List.head?_append] at hsigned
      exact hstill (hsigned.2.1 rfl)

/-- After these tokens, last first, a magnitude may be the lowest integer: the last is a minus that
is a sign. -/
inductive Negates : List Token → Prop
  | minus {text spaced before} (hsign : signAfter before.head? = true) :
    Negates (⟨.operator .subtract, text, spaced⟩ :: before)

/-- Lexemes that form tokens form some wherever no less is known of what stands in front. -/
theorem Formed.elsewhere (h : Formed done lexemes lexed) (done' : List Token)
    (hminus : Negates done → Negates done')
    (hsign : signAfter done.head? = true → signAfter done'.head? = true) :
    ∃ lexed', Formed done' lexemes lexed' := by
  induction h generalizing done' with
  | done => exact ⟨_, .done⟩
  | continued => exact ⟨_, .continued⟩
  | @single done kind lexemes lexed lexeme hkind hrest ih =>
    obtain ⟨lexed', hformed⟩ := ih (⟨kind, lexeme.text, lexeme.spaced⟩ :: done')
      (by rintro ⟨hfirst⟩; exact .minus (hsign hfirst)) id
    exact ⟨lexed', .single hkind hformed⟩
  | @ownMember done point word lexemes lexed hrest ih =>
    obtain ⟨lexed', hformed⟩ := ih (⟨.ownMember word, point ++ word, true⟩ :: done')
      (by rintro ⟨⟩) id
    exact ⟨lexed', .ownMember hformed⟩
  | @member done point word lexemes lexed hrest ih =>
    obtain ⟨lexed', hformed⟩ := ih
      (⟨wordKind word, word, false⟩ :: ⟨.operator .member, point, false⟩ :: done')
      (by
        generalize hkind : wordKind word = kind
        rintro ⟨-⟩
        exact absurd hkind (wordKind_ne_operator word)) id
    exact ⟨lexed', .member hformed⟩
  | @negative front minus value text minusSpaced spaced lexemes lexed hvalue hfirst hrest ih =>
    obtain @⟨minus', spaced', front', hfirst'⟩ := hminus (.minus hfirst)
    obtain ⟨lexed', hformed⟩ := ih
      (⟨.literal (.int Int32.minValue), "-" ++ text, spaced'⟩ :: front')
      (by rintro ⟨⟩) id
    exact ⟨lexed', .negative hvalue hfirst' hformed⟩

/-- The text is read as the rest of a line whose tokens so far, last first, are given. -/
def ReadBehind (before : List Token) (text : List Char) (lexed : Lexed) : Prop :=
  ∃ lexemes, scan true text = .ok lexemes ∧ Formed before lexemes lexed

variable {text : List Char}

theorem ofChars_iff : ofChars text = .ok lexed ↔ ReadBehind [] text lexed := by
  unfold ofChars ReadBehind
  cases scan true text with
  | error e => simp
  | ok lexemes => simp [formed_iff]

/-- Across a seam the reading goes on behind the tokens of the line that was cut. -/
theorem readBehind_unmarked (h : ofChars text = .ok lexed) (hmark : lexed.continuation = true)
    (more : List Char) :
    ReadBehind before (unmarked text ++ ' ' :: more) lexed' ↔
      Signed before.head? lexed.tokens ∧ ReadBehind (lexed.tokens.reverse ++ before) more lexed' := by
  obtain ⟨lexemes, hscan, hformed⟩ := ofChars_iff.mp h
  obtain ⟨front, mark, rfl, hellipsis, hfront, hunmarked⟩ := hformed.before_mark hmark
  have hseam (rest : List Lexeme) : Formed before (front ++ rest) lexed' ↔
      Signed before.head? lexed.tokens ∧ Formed (lexed.tokens.reverse ++ before) rest lexed' :=
    hunmarked.behind rfl trivial
  unfold ReadBehind
  rw [Lexeme.scan_unmarked hscan hellipsis hfront more]
  cases scan true more with
  | error e => simp [Except.map]
  | ok rest => simp [Except.map, hseam]

/-- A line that does not go on ends the reading. -/
theorem readBehind_last (h : ofChars text = .ok lexed) (hmark : lexed.continuation = false) :
    ReadBehind before text lexed' ↔
      Signed before.head? lexed.tokens ∧ lexed' = ⟨before.reverse ++ lexed.tokens, false⟩ := by
  obtain ⟨lexemes, hscan, hformed⟩ := ofChars_iff.mp h
  have hend (done : List Token) : Formed done [] lexed' ↔ lexed' = ⟨done.reverse, false⟩ :=
    ⟨by rintro ⟨⟩; rfl, by rintro rfl; exact .done⟩
  have hseam : Formed ([] ++ before) (lexemes ++ []) lexed' ↔ Signed before.head? lexed.tokens ∧
      Formed (lexed.tokens.reverse ++ before) [] lexed' := hformed.behind hmark trivial
  rw [List.nil_append, List.append_nil, hend, List.reverse_append, List.reverse_reverse] at hseam
  unfold ReadBehind
  simp [hscan, hseam]

theorem scan_minus (text : List Char) : scan true ('-' :: ' ' :: text) =
    (scan true text).map (⟨.operator .subtract, "-", true⟩ :: ·) := by
  have hfits : Lexeme.Fits ⟨.operator .subtract, "-", true⟩ (' ' :: text).head? :=
    ⟨'-', [], _, rfl, .symbol rfl, by rintro _ ⟨⟩; rfl⟩
  rw [← Lexeme.scan_blank false text]
  exact hfits.scan_eq true

/-- A text that is no line by itself is the rest of one only behind a minus, if it begins with the
magnitude of the lowest integer. -/
theorem readBehind_of_error {e : SyntaxError} (h : ofChars text = .error e) :
    (∃ lexed, ReadBehind before text lexed) ↔
      Negates before ∧ ∃ lexed, ofChars ('-' :: ' ' :: text) = .ok lexed := by
  have halone (lexed : Lexed) : ¬ReadBehind [] text lexed := by
    rw [← ofChars_iff, h]
    rintro ⟨⟩
  have hminus (lexed : Lexed) : ofChars ('-' :: ' ' :: text) = .ok lexed ↔
      ReadBehind [⟨.operator .subtract, "-", true⟩] text lexed := by
    have hkind : Lexeme.tokenKind? ⟨.operator .subtract, "-", true⟩ = some (.operator .subtract) :=
      rfl
    rw [ofChars_iff]
    unfold ReadBehind
    rw [scan_minus]
    cases scan true text with
    | error e => simp [Except.map]
    | ok lexemes => simp [Except.map, formed_single hkind]
  constructor
  · rintro ⟨lexed, lexemes, hscan, hformed⟩
    have hnegates : Negates before := by
      by_contra hnot
      obtain ⟨lexed', hformed'⟩ := hformed.elsewhere [] (absurd · hnot) fun _ => rfl
      exact halone lexed' ⟨lexemes, hscan, hformed'⟩
    obtain ⟨lexed', hformed'⟩ := hformed.elsewhere
      [⟨.operator .subtract, "-", true⟩] (fun _ => .minus rfl) fun _ => rfl
    exact ⟨hnegates, lexed', (hminus lexed').mpr ⟨lexemes, hscan, hformed'⟩⟩
  · rintro ⟨hnegates, lexed, hlexed⟩
    obtain ⟨lexemes, hscan, hformed⟩ := (hminus lexed).mp hlexed
    obtain ⟨lexed', hformed'⟩ := hformed.elsewhere before (fun _ => hnegates) fun _ => by
      obtain ⟨-⟩ := hnegates
      rfl
    exact ⟨lexed', lexemes, hscan, hformed'⟩

end Lexed

end BuildScript
