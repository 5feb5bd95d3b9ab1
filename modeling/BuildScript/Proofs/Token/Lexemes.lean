import BuildScript.Proofs.Token.Spelling

/-!
Lexemes as text. Lexemes are written one after the other, with a blank before each that is spaced.
If every one of them is spelled as it must be and does not take in the first character of what
follows, then they are what the text is scanned as; and whatever a line is scanned as can be written
so.
-/

namespace BuildScript.Lexeme

/-- The text of a lexeme with a blank before it if it is spaced. -/
def written (lexeme : Lexeme) : List Char :=
  (if lexeme.spaced then [' '] else []) ++ lexeme.text.toList

def chars (lexemes : List Lexeme) : List Char := lexemes.flatMap written

/-- The lexeme is spelled by its text, and would not take in the character that comes next. -/
def Fits (lexeme : Lexeme) (next : Option Char) : Prop :=
  ∃ c cs glues, lexeme.text.toList = c :: cs ∧ Spells lexeme.kind c cs glues ∧
    ∀ d ∈ next, glues d = false

/-- Every lexeme fits before what follows it. -/
def Spelled : List Lexeme → Prop
  | [] => True
  | lexeme :: rest => lexeme.Fits (chars rest).head? ∧ Spelled rest

variable {lexeme : Lexeme} {lexemes rest : List Lexeme} {next : Option Char} {spaced : Bool}

theorem chars_cons : chars (lexeme :: rest) = lexeme.written ++ chars rest := List.flatMap_cons

theorem chars_append (others : List Lexeme) :
    chars (lexemes ++ others) = chars lexemes ++ chars others := List.flatMap_append

theorem Fits.none (h : lexeme.Fits next) : lexeme.Fits none := by
  obtain ⟨c, cs, glues, htext, hspells, -⟩ := h
  exact ⟨c, cs, glues, htext, hspells, nofun⟩

theorem Fits.blank (h : lexeme.Fits next) : lexeme.Fits (some ' ') := by
  obtain ⟨c, cs, glues, htext, hspells, -⟩ := h
  refine ⟨c, cs, glues, htext, hspells, ?_⟩
  rintro _ ⟨⟩
  exact hspells.blank

/-- A spaced lexeme may be at the front where white space was before the text. -/
def MayBegin (spaced : Bool) (lexemes : List Lexeme) : Prop :=
  ∀ lexeme ∈ lexemes.head?, spaced = true → lexeme.spaced = true

theorem scan_blank (spaced : Bool) (text : List Char) : scan spaced (' ' :: text) = scan true text := by
  rw [scan]
  rfl

/-- One lexeme is scanned off the front, whatever becomes of the rest. -/
theorem Fits.scan_eq {more : List Char} (h : lexeme.Fits more.head?) (spaced : Bool) :
    scan spaced (lexeme.text.toList ++ more) =
      (scan false more).map ({ lexeme with spaced } :: ·) := by
  obtain ⟨c, cs, glues, htext, hspells, hglues⟩ := h
  rw [htext, List.cons_append, scan, hspells.not_gap, hspells.not_comment hglues,
    hspells.read_eq hglues]
  dsimp only
  rw [List.drop_left, List.take_left, ← htext, String.ofList_toList]
  cases scan false more with
  | error e => rfl
  | ok others => rfl

theorem Fits.scan_append {more : List Char} {others : List Lexeme} (h : lexeme.Fits more.head?)
    (hmore : scan false more = .ok others) :
    scan spaced (lexeme.text.toList ++ more) = .ok ({ lexeme with spaced } :: others) := by
  rw [h.scan_eq, hmore]
  rfl

/-- Lexemes that are written as they must be are scanned. -/
theorem scan_chars (h : Spelled lexemes) (hbegin : MayBegin spaced lexemes) :
    scan spaced (chars lexemes) = .ok lexemes := by
  induction lexemes generalizing spaced with
  | nil =>
    rw [chars, List.flatMap_nil, scan]
  | cons lexeme rest ih =>
    obtain ⟨hfits, hrest⟩ := h
    have hothers : scan false (chars rest) = .ok rest :=
      ih hrest fun _ _ hfalse => absurd hfalse Bool.false_ne_true
    rw [chars_cons, written, List.append_assoc]
    cases hspaced : lexeme.spaced with
    | true =>
      rw [if_pos rfl, List.singleton_append, scan_blank, hfits.scan_append hothers, ← hspaced]
    | false =>
      have hunspaced : spaced = false := by
        cases spaced with
        | false => rfl
        | true => exact (hspaced.symm.trans (hbegin lexeme rfl rfl)).symm
      rw [if_neg Bool.false_ne_true, List.nil_append, hfits.scan_append hothers, hunspaced,
        ← hspaced]

theorem MayBegin.head? (h : MayBegin true lexemes) :
    (chars lexemes).head? = none ∨ (chars lexemes).head? = some ' ' := by
  cases lexemes with
  | nil => exact .inl rfl
  | cons lexeme rest =>
    rw [chars_cons, written, h lexeme rfl rfl]
    exact .inr rfl

/-- Where there is a blank first, the first lexeme is spaced. -/
theorem Spelled.mayBegin (h : Spelled lexemes) (hblank : (chars lexemes).head? = some ' ') :
    MayBegin spaced lexemes := by
  rintro lexeme hmem -
  obtain ⟨rest, rfl⟩ := List.head?_eq_some_iff.mp hmem
  obtain ⟨⟨c, cs, glues, htext, hspells, -⟩, -⟩ := h
  rw [chars_cons, written, htext] at hblank
  cases hspaced : lexeme.spaced with
  | true => rfl
  | false =>
    rw [hspaced] at hblank
    cases hblank
    cases hspells.not_gap

theorem MayBegin.mono (h : MayBegin true lexemes) : MayBegin spaced lexemes :=
  fun lexeme hmem _ => h lexeme hmem rfl

/-- What a text is scanned as can be written. The lexemes begin with the first character of the
text, if not with a blank. -/
theorem spelled_of_scan {text : List Char} (h : scan spaced text = .ok lexemes) :
    Spelled lexemes ∧ MayBegin spaced lexemes ∧ ((chars lexemes).head? = none ∨
      (chars lexemes).head? = some ' ' ∨ (chars lexemes).head? = text.head?) := by
  fun_induction scan spaced text generalizing lexemes with
  | case1 spaced =>
    cases h
    exact ⟨trivial, nofun, .inl rfl⟩
  | case2 spaced c rest hgap ih | case3 spaced c rest hgap hcomment ih =>
    obtain ⟨hspelled, hbegin, -⟩ := ih h
    exact ⟨hspelled, hbegin.mono, hbegin.head?.imp_right .inl⟩
  | case4 spaced c rest hgap hcomment e hread | case5 spaced c rest hgap hcomment kind n hread e hrest ih =>
    cases h
  | case6 spaced c rest hgap hcomment kind n hread others hrest ih =>
    cases h
    obtain ⟨hspelled, -, hhead⟩ := ih hrest
    have hslash : c = '/' → rest.head? ≠ some '/' := by
      rintro rfl hslash
      exact hcomment (by rw [hslash]; rfl)
    obtain ⟨cs, more, glues, rfl, rfl, hspells, hglues⟩ := spells_of_read hslash hread
    rw [List.drop_left] at hhead
    rw [List.take_left]
    have hfits : Fits ⟨kind, String.ofList (c :: cs), spaced⟩ more.head? :=
      ⟨c, cs, glues, String.toList_ofList, hspells, hglues⟩
    refine ⟨⟨?_, hspelled⟩, ?_, ?_⟩
    · rcases hhead with hnone | hblank | hsame
      · rw [hnone]
        exact hfits.none
      · rw [hblank]
        exact hfits.blank
      · rw [hsame]
        exact hfits
    · rintro _ ⟨⟩ hspaced
      exact hspaced
    · rw [chars_cons, written, String.toList_ofList]
      cases spaced with
      | true => exact .inr (.inl rfl)
      | false => exact .inr (.inr rfl)

end BuildScript.Lexeme
