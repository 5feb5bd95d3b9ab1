import BuildScript.Proofs.Token.Seams

/-!
Scanning on the way. White space and comments are passed over and lexemes are taken off the front; what
a place in the text is scanned as depends on nothing before it but whether white space was there. An
error of a line is the error of the first place that is reached and begins no lexeme.
-/

namespace BuildScript.Lexeme

/-- Whether the character and the one after it begin a comment. -/
def beginsComment (c : Char) (rest : List Char) : Bool := c == '/' && rest.head? == some '/'

/-- Scanning the first text gets to the second, and gives the lexemes on the way. In front of each
text there is white space, or the start of the line, if its flag says so. -/
inductive Passes : Bool → List Char → List Lexeme → Bool → List Char → Prop
  | here {spaced text} : Passes spaced text [] spaced text
  | gap {spaced c rest lexemes spaced' rest'} (hgap : isGap c = true)
    (hrest : Passes true rest lexemes spaced' rest') :
    Passes spaced (c :: rest) lexemes spaced' rest'
  | comment {spaced c rest lexemes spaced' rest'} (hgap : isGap c = false)
    (hcomment : beginsComment c rest = true)
    (hrest : Passes true (rest.dropWhile (· != '\n')) lexemes spaced' rest') :
    Passes spaced (c :: rest) lexemes spaced' rest'
  | lexeme {spaced c rest kind n lexemes spaced' rest'} (hgap : isGap c = false)
    (hcomment : beginsComment c rest = false) (hread : read c rest = .ok (kind, n))
    (hrest : Passes false (rest.drop n) lexemes spaced' rest') :
    Passes spaced (c :: rest) (⟨kind, String.ofList (c :: rest.take n), spaced⟩ :: lexemes) spaced'
      rest'

variable {spaced spaced' spaced'' : Bool} {text rest rest' : List Char} {lexemes others : List Lexeme}
  {c : Char} {kind : LexemeKind} {n : Nat} {e : SyntaxError}

/-- Up to the end of its line a comment begins as it does with what is behind. -/
theorem beginsComment_takeWhile (h : beginsComment c rest = true) :
    beginsComment c (rest.takeWhile (· != '\n')) = true := by
  cases rest with
  | nil => exact h
  | cons d rest =>
    obtain ⟨-, hsecond⟩ := (Bool.and_eq_true _ _).mp h
    obtain rfl : d = '/' := by simpa using hsecond
    exact h

/-- What is read where no comment begins is spelled by the tokens' rules, and ends by them. -/
theorem spells_of_lexeme (hcomment : beginsComment c rest = false) (hread : read c rest = .ok (kind, n)) :
    ∃ cs after glues, rest = cs ++ after ∧ cs.length = n ∧ Spells kind c cs glues ∧
      ∀ d ∈ after.head?, glues d = false := by
  refine spells_of_read ?_ hread
  rintro rfl hslash
  rw [beginsComment, hslash] at hcomment
  cases hcomment

theorem scan_gap (hgap : isGap c = true) : scan spaced (c :: rest) = scan true rest := by
  rw [scan, if_pos hgap]

theorem scan_comment (hgap : isGap c = false) (hcomment : beginsComment c rest = true) :
    scan spaced (c :: rest) = scan true (rest.dropWhile (· != '\n')) := by
  have hslash : (c == '/' && rest.head? == some '/') = true := hcomment
  rw [scan, hgap, if_neg Bool.false_ne_true, if_pos hslash]

theorem scan_lexeme (hgap : isGap c = false) (hcomment : beginsComment c rest = false)
    (hread : read c rest = .ok (kind, n)) : scan spaced (c :: rest) =
      (scan false (rest.drop n)).map (⟨kind, String.ofList (c :: rest.take n), spaced⟩ :: ·) := by
  have hslash : ¬(c == '/' && rest.head? == some '/') = true := ne_true_of_eq_false hcomment
  rw [scan, hgap, if_neg Bool.false_ne_true, if_neg hslash, hread]
  dsimp only
  cases scan false (rest.drop n) <;> rfl

theorem scan_error (hgap : isGap c = false) (hcomment : beginsComment c rest = false)
    (hread : read c rest = .error e) : scan spaced (c :: rest) = .error e := by
  have hslash : ¬(c == '/' && rest.head? == some '/') = true := ne_true_of_eq_false hcomment
  rw [scan, hgap, if_neg Bool.false_ne_true, if_neg hslash, hread]

namespace Passes

/-- The rest of the text is scanned as by itself. -/
theorem scan_eq (h : Passes spaced text lexemes spaced' rest) :
    scan spaced text = (scan spaced' rest).map (lexemes ++ ·) := by
  induction h with
  | @here spaced text => cases scan spaced text <;> rfl
  | gap hgap hrest ih => rw [scan_gap hgap, ih]
  | comment hgap hcomment hrest ih => rw [scan_comment hgap hcomment, ih]
  | @lexeme spaced c rest kind n lexemes spaced' rest' hgap hcomment hread hrest ih =>
    rw [scan_lexeme hgap hcomment hread, ih]
    cases scan spaced' rest' <;> rfl

theorem trans (h : Passes spaced text lexemes spaced' rest)
    (hrest : Passes spaced' rest others spaced'' rest') :
    Passes spaced text (lexemes ++ others) spaced'' rest' := by
  induction h with
  | here => exact hrest
  | gap hgap _ ih => exact .gap hgap (ih hrest)
  | comment hgap hcomment _ ih => exact .comment hgap hcomment (ih hrest)
  | lexeme hgap hcomment hread _ ih => exact .lexeme hgap hcomment hread (ih hrest)

/-- A comment ends in front of a line feed, where no lexeme begins: the scan gets no further. -/
theorem behind_comment (h : Passes true (text.dropWhile (· != '\n')) lexemes spaced rest) :
    lexemes = [] ∧ rest = text.dropWhile (· != '\n') := by
  have hstop := List.head?_dropWhile_not (· != '\n') text
  generalize text.dropWhile (· != '\n') = after at h hstop
  have hfeed : ∀ c ∈ after.head?, c = '\n' := by
    intro c hc
    rw [Option.mem_def.mp hc] at hstop
    simpa using hstop
  cases h with
  | here => exact ⟨rfl, rfl⟩
  | @gap _ c _ _ _ _ hgap =>
    obtain rfl := hfeed c rfl
    exact absurd hgap (by decide)
  | @comment _ c _ _ _ _ _ hcomment =>
    obtain rfl := hfeed c rfl
    exact Bool.noConfusion hcomment
  | @lexeme _ c _ _ _ _ _ _ _ _ hread =>
    obtain rfl := hfeed c rfl
    rw [read_lineFeed] at hread
    cases hread

/-- Up to the place that is reached the text is scanned by itself, as these lexemes. -/
theorem exists_before (h : Passes spaced text lexemes spaced' rest) :
    ∃ before, text = before ++ rest ∧ scan spaced before = .ok lexemes := by
  induction h with
  | here => exact ⟨[], rfl, by rw [scan]⟩
  | @gap spaced c rest lexemes spaced' rest' hgap hrest ih =>
    obtain ⟨before, rfl, hscan⟩ := ih
    exact ⟨c :: before, rfl, (scan_gap hgap).trans hscan⟩
  | @comment spaced c rest lexemes spaced' rest' hgap hcomment hrest =>
    obtain ⟨rfl, rfl⟩ := hrest.behind_comment
    refine ⟨c :: rest.takeWhile (· != '\n'), by simp, ?_⟩
    rw [scan_comment hgap (beginsComment_takeWhile hcomment), List.dropWhile_eq_nil_iff.mpr, scan]
    exact fun d hd => List.all_eq_true.mp List.all_takeWhile d hd
  | @lexeme spaced c rest kind n lexemes spaced' rest' hgap hcomment hread hrest ih =>
    obtain ⟨before, hbefore, hscan⟩ := ih
    obtain ⟨cs, after, glues, rfl, rfl, hspells, hglues⟩ := spells_of_lexeme hcomment hread
    rw [List.drop_left] at hbefore
    subst hbefore
    refine ⟨c :: cs ++ before, by simp, ?_⟩
    have hfits : Fits ⟨kind, String.ofList (c :: cs), spaced⟩ before.head? := by
      refine ⟨c, cs, glues, String.toList_ofList, hspells, ?_⟩
      cases before with
      | nil =>
        intro d hd
        cases hd
      | cons d before => exact hglues
    have hfront : scan spaced ((String.ofList (c :: cs)).toList ++ before) =
        .ok (⟨kind, String.ofList (c :: cs), spaced⟩ :: lexemes) := hfits.scan_append hscan
    rw [String.toList_ofList] at hfront
    rw [List.take_left]
    exact hfront

end Passes

/-- A text that is not scanned has a first place where no lexeme begins. -/
theorem scan_eq_error_iff : scan spaced text = .error e ↔ ∃ lexemes spaced' c rest,
    Passes spaced text lexemes spaced' (c :: rest) ∧ isGap c = false ∧
      beginsComment c rest = false ∧ read c rest = .error e := by
  constructor
  · intro h
    fun_induction scan spaced text with
    | case1 => cases h
    | case2 spaced c rest hgap ih =>
      obtain ⟨lexemes, spaced', d, rest', hpasses, herror⟩ := ih h
      exact ⟨lexemes, spaced', d, rest', .gap hgap hpasses, herror⟩
    | case3 spaced c rest hgap hcomment ih =>
      obtain ⟨lexemes, spaced', d, rest', hpasses, herror⟩ := ih h
      exact ⟨lexemes, spaced', d, rest', .comment (eq_false_of_ne_true hgap) hcomment hpasses, herror⟩
    | case4 spaced c rest hgap hcomment e' hread =>
      cases h
      exact ⟨[], spaced, c, rest, .here, eq_false_of_ne_true hgap, eq_false_of_ne_true hcomment, hread⟩
    | case5 spaced c rest hgap hcomment kind n hread e' hrest ih =>
      cases h
      obtain ⟨lexemes, spaced', d, rest', hpasses, herror⟩ := ih hrest
      exact ⟨_, spaced', d, rest', .lexeme (eq_false_of_ne_true hgap) (eq_false_of_ne_true hcomment)
        hread hpasses, herror⟩
    | case6 => cases h
  · rintro ⟨lexemes, spaced', c, rest, hpasses, hgap, hcomment, hread⟩
    rw [hpasses.scan_eq, scan_error hgap hcomment hread]
    rfl

end BuildScript.Lexeme
