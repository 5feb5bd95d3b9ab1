import Mathlib
import BuildScript.Proofs.Script.Lines
import BuildScript.Proofs.Token.Seams

/-!
Lines that go on, as one line. Each physical line is lexed by itself and the tokens are put one after
the other. The single line with the marks removed and a blank in their place has the same tokens and
lexes just when the lines do, but for one thing that a lexer decides by what stands in front: whether
a minus is the sign of the lowest integer.
-/

namespace BuildScript

open Text (SourceLine)

/-- The line lexes and ends with the mark. -/
def Text.SourceLine.GoesOn (line : SourceLine) : Prop :=
  ∃ lexed, Lexed.ofLine line.text = .ok lexed ∧ lexed.continuation = true

/-- The lines as one. A blank takes the place of the marks and of what follows them. -/
def splicedChars (last : SourceLine) : List SourceLine → List Char
  | [] => last.text.toList
  | line :: front => Lexeme.unmarked line.text.toList ++ ' ' :: splicedChars last front

def splicedText (front : List SourceLine) (last : SourceLine) : String :=
  String.ofList (splicedChars last front)

/-- The tokens of the lines, one line after the other. -/
def tokensOf (lines : List SourceLine) : List Token :=
  lines.flatMap fun line => Body.braceTokens line.text

/-- No minus is a sign to the lines by themselves and none to the one line, or the other way round.
`before` are the tokens in front of the last line. -/
structure Seamless (before : List Token) (last : SourceLine) : Prop where
  /-- Every lowest integer is one in the whole line. -/
  signed : ∀ lexed, Lexed.ofLine last.text = .ok lexed → Lexed.Signed none (before ++ lexed.tokens)
  /-- No minus waits for a line that lexes behind one only. -/
  minus : ∀ e lexed, Lexed.ofLine last.text = .error e →
    Lexed.ofLine ("- " ++ last.text) = .ok lexed → Lexed.Signed none before →
      ¬Lexed.Negates before.reverse

variable {front more rest : List SourceLine} {line last : SourceLine} {before : List Token}
  {lexed : Lexed}

theorem tokensOf_cons (h : Lexed.ofLine line.text = .ok lexed) (front : List SourceLine) :
    tokensOf (line :: front) = lexed.tokens ++ tokensOf front := by
  have hline : Body.braceTokens line.text = lexed.tokens := by
    unfold Body.braceTokens
    rw [h]
  exact List.flatMap_cons.trans (congrArg (· ++ tokensOf front) hline)

/-- The one line is read up to the last seam as the lines are, if its lowest integers are signed. -/
theorem readBehind_spliced (hfront : ∀ line ∈ front, line.GoesOn) :
    Lexed.ReadBehind before (splicedChars last front) lexed ↔
      Lexed.Signed before.head? (tokensOf front) ∧
        Lexed.ReadBehind ((tokensOf front).reverse ++ before) last.text.toList lexed := by
  induction front generalizing before with
  | nil => exact (and_iff_right trivial).symm
  | cons line front ih =>
    obtain ⟨⟨first, hline, hmark⟩, hothers⟩ := List.forall_mem_cons.mp hfront
    rw [splicedChars, Lexed.readBehind_unmarked hline hmark, ih hothers, tokensOf_cons hline,
      Lexed.signed_append, List.reverse_append, List.append_assoc, List.head?_append,
      List.head?_reverse, and_assoc]

theorem ofLine_splicedText (hfront : ∀ line ∈ front, line.GoesOn) :
    Lexed.ofLine (splicedText front last) = .ok lexed ↔ Lexed.Signed none (tokensOf front) ∧
      Lexed.ReadBehind (tokensOf front).reverse last.text.toList lexed := by
  rw [Lexed.ofLine, splicedText, String.toList_ofList, Lexed.ofChars_iff, readBehind_spliced hfront,
    List.append_nil]
  rfl

/-- A line that does not go on is a logical line by itself. -/
theorem spliceLine_stops (h : ¬line.GoesOn) (rest : List SourceLine) :
    spliceLine line rest = ((Lexed.ofLine line.text).map Lexed.tokens, rest) :=
  spliceLine_uncontinued rfl
    (fun lexed hlexed => eq_false_of_ne_true fun hmark => h ⟨lexed, hlexed, hmark⟩) rest

/-- Every line but the last goes on, so the next one is taken. -/
theorem spliceLine_run (hlines : line :: rest = front ++ last :: more)
    (hfront : ∀ line ∈ front, line.GoesOn) (hlast : ¬last.GoesOn) :
    spliceLine line rest =
      ((Lexed.ofLine last.text).map fun lexed => tokensOf front ++ lexed.tokens, more) := by
  induction front generalizing line rest with
  | nil =>
    obtain ⟨rfl, rfl⟩ := List.cons.inj hlines
    exact spliceLine_stops hlast rest
  | cons first front ih =>
    rw [List.cons_append] at hlines
    obtain ⟨rfl, rfl⟩ := List.cons.inj hlines
    obtain ⟨⟨lexed, hlexed, hmark⟩, hothers⟩ := List.forall_mem_cons.mp hfront
    obtain ⟨next, rest', hrest⟩ := List.exists_cons_of_ne_nil
      (List.append_ne_nil_of_right_ne_nil front (List.cons_ne_nil last more))
    rw [hrest, spliceLine_continued hlexed hmark, ih hrest.symm hothers, tokensOf_cons hlexed]
    cases Lexed.ofLine last.text with
    | error e => rfl
    | ok others =>
      dsimp only [Except.map]
      rw [List.append_assoc]

/-- The one line lexes as the lines do where the last one lexes and every lowest integer is signed. -/
theorem ofLine_spliced (hfront : ∀ line ∈ front, line.GoesOn) {others : Lexed}
    (hlast : Lexed.ofLine last.text = .ok others) (hends : others.continuation = false) :
    Lexed.ofLine (splicedText front last) = .ok lexed ↔
      Lexed.Signed none (tokensOf front ++ others.tokens) ∧
        lexed = ⟨tokensOf front ++ others.tokens, false⟩ := by
  rw [ofLine_splicedText hfront, Lexed.readBehind_last hlast hends, List.reverse_reverse,
    Lexed.signed_append, and_assoc, List.head?_reverse, Option.or_none]

/-- Where the last line does not lex, the one line does only if a minus waits for it. -/
theorem ofLine_spliced_error (hfront : ∀ line ∈ front, line.GoesOn) {e : SyntaxError}
    (hlast : Lexed.ofLine last.text = .error e) :
    (∃ lexed, Lexed.ofLine (splicedText front last) = .ok lexed) ↔
      Lexed.Signed none (tokensOf front) ∧ Lexed.Negates (tokensOf front).reverse ∧
        ∃ lexed, Lexed.ofLine ("- " ++ last.text) = .ok lexed := by
  have hminus : Lexed.ofLine ("- " ++ last.text) =
      Lexed.ofChars ('-' :: ' ' :: last.text.toList) := by
    rw [Lexed.ofLine, String.toList_append]
    rfl
  simp only [ofLine_splicedText hfront, exists_and_left, hminus]
  rw [Lexed.readBehind_of_error hlast]

/-- A run of lines, all but the last of which go on, is read as its lines spliced into one: no line
after it is taken, and where the seams are seamless the tokens are the same and there is an error in
both or in none. Elsewhere just one of the two lexes. -/
theorem spliceLine_seams (hlines : line :: rest = front ++ last :: more)
    (hfront : ∀ line ∈ front, line.GoesOn) (hlast : ¬last.GoesOn) :
    (spliceLine line rest).2 = more ∧
      (Seamless (tokensOf front) last → (spliceLine line rest).1.toOption =
        ((Lexed.ofLine (splicedText front last)).map Lexed.tokens).toOption) ∧
      (¬Seamless (tokensOf front) last →
        (spliceLine line rest).1.isOk ≠ (Lexed.ofLine (splicedText front last)).isOk) := by
  rw [spliceLine_run hlines hfront hlast]
  refine ⟨rfl, ?_⟩
  cases hlexed : Lexed.ofLine last.text with
  | ok others =>
    have hends : others.continuation = false :=
      eq_false_of_ne_true fun hmark => hlast ⟨others, hlexed, hmark⟩
    have hseamless : Seamless (tokensOf front) last ↔
        Lexed.Signed none (tokensOf front ++ others.tokens) := by
      refine ⟨fun h => h.signed others hlexed, fun h => ⟨fun lexed hsame => ?_, fun e lexed he => ?_⟩⟩
      · rw [hlexed] at hsame
        cases hsame
        exact h
      · rw [hlexed] at he
        cases he
    rw [hseamless]
    refine ⟨fun hsigned => ?_, fun hunsigned => ?_⟩
    · rw [(ofLine_spliced hfront hlexed hends).mpr ⟨hsigned, rfl⟩]
      rfl
    · cases hjoined : Lexed.ofLine (splicedText front last) with
      | error e => rintro ⟨⟩
      | ok lexed => exact absurd ((ofLine_spliced hfront hlexed hends).mp hjoined).1 hunsigned
  | error e =>
    have hseamless : Seamless (tokensOf front) last ↔
        ¬∃ lexed, Lexed.ofLine (splicedText front last) = .ok lexed := by
      rw [ofLine_spliced_error hfront hlexed]
      refine ⟨fun h ⟨hsigned, hnegates, lexed, hok⟩ => h.minus e lexed hlexed hok hsigned hnegates,
        fun h => ⟨fun lexed hok => ?_, fun _ lexed _ hok hsigned hnegates =>
          h ⟨hsigned, hnegates, lexed, hok⟩⟩⟩
      rw [hlexed] at hok
      cases hok
    rw [hseamless]
    cases hjoined : Lexed.ofLine (splicedText front last) with
    | error e => exact ⟨fun _ => rfl, fun h => absurd (by rintro ⟨lexed, ⟨⟩⟩) h⟩
    | ok lexed => exact ⟨fun h => absurd ⟨lexed, rfl⟩ h, fun _ => by rintro ⟨⟩⟩

/-- What stands in front of the minus is on its own line, so it is a sign in both. -/
theorem factorBehindSeam_spliced :
    splicedText [⟨1, "x = 1 ... // times"⟩] ⟨2, "* - 2147483648"⟩ = "x = 1  * - 2147483648" ∧
      (spliceLine ⟨1, "x = 1 ... // times"⟩ [⟨2, "* - 2147483648"⟩, ⟨3, "y"⟩]).2 = [⟨3, "y"⟩] ∧
      (spliceLine ⟨1, "x = 1 ... // times"⟩ [⟨2, "* - 2147483648"⟩, ⟨3, "y"⟩]).1.toOption =
        ((Lexed.ofLine "x = 1  * - 2147483648").map Lexed.tokens).toOption := by
  have hfirst : Lexed.ofLine "x = 1 ... // times" = .ok ⟨[⟨.identifier "x", "x", true⟩,
      ⟨.operator .assign, "=", true⟩, ⟨.literal (.int 1), "1", true⟩], true⟩ := by cbv
  have hlast : Lexed.ofLine "* - 2147483648" = .ok ⟨[⟨.operator .multiply, "*", true⟩,
      ⟨.literal (.int Int32.minValue), "-2147483648", true⟩], false⟩ := by cbv
  have htext : splicedText [⟨1, "x = 1 ... // times"⟩] ⟨2, "* - 2147483648"⟩ =
      "x = 1  * - 2147483648" := by cbv
  have hfront : ∀ line ∈ [SourceLine.mk 1 "x = 1 ... // times"], line.GoesOn := by
    simpa using ⟨_, hfirst, rfl⟩
  have hends : ¬SourceLine.GoesOn ⟨2, "* - 2147483648"⟩ := by
    rintro ⟨lexed, hlexed, hmark⟩
    cases hlexed.symm.trans hlast
    cases hmark
  have hseamless : Seamless (tokensOf [⟨1, "x = 1 ... // times"⟩]) ⟨2, "* - 2147483648"⟩ := by
    rw [tokensOf_cons hfirst]
    refine ⟨fun lexed hlexed => ?_, fun e lexed herror => ?_⟩
    · cases hlexed.symm.trans hlast
      simp [tokensOf, Lexed.Signed, Lexed.signAfter]
    · cases herror.symm.trans hlast
  have hlines : SourceLine.mk 1 "x = 1 ... // times" :: [⟨2, "* - 2147483648"⟩, ⟨3, "y"⟩] =
      [⟨1, "x = 1 ... // times"⟩] ++ ⟨2, "* - 2147483648"⟩ :: [⟨3, "y"⟩] := rfl
  have hrun := spliceLine_seams hlines hfront hends
  rw [htext] at hrun
  exact ⟨htext, hrun.1, hrun.2.1 hseamless⟩

/-- A minus in front of the seam and its magnitude behind it. In one line they are the lowest
integer; the lines by themselves are a minus and an integer out of range. -/
theorem minusBeforeSeam_differs :
    SourceLine.GoesOn ⟨1, "x = - ..."⟩ ∧ ¬SourceLine.GoesOn ⟨2, "2147483648"⟩ ∧
      spliceLine ⟨1, "x = - ..."⟩ [⟨2, "2147483648"⟩] =
        (.error (.integerOutOfRange "2147483648"), []) ∧
      splicedText [⟨1, "x = - ..."⟩] ⟨2, "2147483648"⟩ = "x = -  2147483648" ∧
      Lexed.ofLine "x = -  2147483648" = .ok ⟨[⟨.identifier "x", "x", true⟩,
        ⟨.operator .assign, "=", true⟩, ⟨.literal (.int Int32.minValue), "-2147483648", true⟩],
        false⟩ := by
  have hfirst : Lexed.ofLine "x = - ..." = .ok ⟨[⟨.identifier "x", "x", true⟩,
      ⟨.operator .assign, "=", true⟩, ⟨.operator .subtract, "-", true⟩], true⟩ := by cbv
  have hlast : Lexed.ofLine "2147483648" = .error (.integerOutOfRange "2147483648") := by cbv
  refine ⟨⟨_, hfirst, rfl⟩, ?_, by cbv, by cbv, by cbv⟩
  rintro ⟨lexed, hlexed, -⟩
  cases hlexed.symm.trans hlast

/-- The other way round, a minus behind the seam is a sign only to its own line. -/
example : (spliceLine ⟨1, "1 ..."⟩ [⟨2, "- 2147483648"⟩]).1.isOk = true ∧
    (Lexed.ofLine (splicedText [⟨1, "1 ..."⟩] ⟨2, "- 2147483648"⟩)).isOk = false :=
  ⟨by cbv, by cbv⟩

end BuildScript
