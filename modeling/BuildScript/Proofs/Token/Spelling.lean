import BuildScript.Token.Lexeme

/-!
How lexemes are spelled. Whether a text is read as a lexeme depends on what follows it through the
next character only: a lexeme is cut off before the first character that it does not take in. So the
same characters are the same lexeme wherever such a character, or nothing, comes next.
-/

namespace BuildScript.Lexeme

/-- Whether a longer symbol, or a comment, begins with the symbol `c :: cs` and the character. -/
def symbolGlues (c : Char) (cs : List Char) (d : Char) : Bool :=
  match c, cs with
  | '*', [] => d == '*' || d == '='
  | '/', [] => d == '/' || d == '='
  | '&', [] => d == '&'
  | '|', [] => d == '|'
  | '*', ['*'] => d == '='
  | '%', [] | '+', [] | '-', [] | '=', [] | '!', [] | '<', [] | '>', [] => d == '='
  | _, _ => false

/-- The characters `c :: cs` are a lexeme of the kind. It would take in a further character for which
the predicate holds. -/
inductive Spells : LexemeKind → Char → List Char → (Char → Bool) → Prop
  | quoted {body value : List Char} (hlength : quotedLength? (body ++ ['"']) = some body.length)
    (hvalue : Text.unescapeChars body = .ok value) :
    Spells (.quoted (String.ofList value)) '"' (body ++ ['"']) fun _ => false
  | magnitude {c : Char} {ds : List Char} (hc : c.isDigit = true) (hds : ∀ d ∈ ds, d.isDigit = true)
    (hvalue : digitsToNat (c :: ds) ≤ largestMagnitude) :
    Spells (.magnitude (digitsToNat (c :: ds))) c ds fun d => d.isDigit || d == '.'
  | single {c : Char} {ds fs : List Char} (hc : c.isDigit = true)
    (hds : ∀ d ∈ ds, d.isDigit = true) (hfs : ∀ d ∈ fs, d.isDigit = true) :
    Spells (.single (Single.ofDecimal (digitsToNat (c :: ds ++ fs)) fs.length)) c
      (ds ++ '.' :: fs) fun d => d.isDigit || (d == '.' && !fs.isEmpty)
  | fraction {fs : List Char} (hfs : ∀ d ∈ fs, d.isDigit = true) (hne : fs ≠ []) :
    Spells (.single (Single.ofDecimal (digitsToNat fs) fs.length)) '.' fs Char.isDigit
  | word {c : Char} {cs : List Char} (hc : isWordStart c = true)
    (hcs : ∀ d ∈ cs, isWordChar d = true) : Spells .word c cs isWordChar
  | dot : Spells .dot '.' [] fun d => d.isDigit || d == '.'
  | twoDots : Spells .twoDots '.' ['.'] (· == '.')
  | ellipsis : Spells .ellipsis '.' ['.', '.'] fun _ => false
  | symbol {kind : LexemeKind} {c : Char} {cs : List Char}
    (hread : readSymbol? c cs = some (kind, cs.length)) : Spells kind c cs (symbolGlues c cs)

section Runs

variable {p : Char → Bool} {xs more : List Char}

theorem takeWhile_append_stop (hxs : ∀ c ∈ xs, p c = true) (hmore : ∀ c ∈ more.head?, p c = false) :
    (xs ++ more).takeWhile p = xs := by
  rw [List.takeWhile_append_of_pos hxs]
  cases more with
  | nil => simp
  | cons d rest => simp [hmore d rfl]

theorem dropWhile_append_stop (hxs : ∀ c ∈ xs, p c = true) (hmore : ∀ c ∈ more.head?, p c = false) :
    (xs ++ more).dropWhile p = more := by
  rw [List.dropWhile_append_of_pos hxs]
  cases more with
  | nil => rfl
  | cons d rest => simp [hmore d rfl]

/-- A text begins with characters of a class, and then comes one of another. -/
theorem exists_run (p : Char → Bool) (text : List Char) :
    ∃ xs more, text = xs ++ more ∧ (∀ c ∈ xs, p c = true) ∧ ∀ c ∈ more.head?, p c = false := by
  refine ⟨text.takeWhile p, text.dropWhile p, List.takeWhile_append_dropWhile.symm, ?_, ?_⟩
  · exact List.all_eq_true.mp List.all_takeWhile
  · intro c hc
    have hstop := List.head?_dropWhile_not p text
    rw [Option.mem_def.mp hc] at hstop
    exact hstop

theorem ne_of_mem_head? {text : List Char} {c d : Char} (h : ∀ tail, text = c :: tail → False)
    (hd : d ∈ text.head?) : d ≠ c := by
  rintro rfl
  obtain ⟨tail, rfl⟩ := List.head?_eq_some_iff.mp hd
  exact h tail rfl

end Runs

section Quotes

variable {cs more : List Char} {n : Nat}

/-- The quote that ends a literal is found whatever comes after it. -/
theorem quotedLength?_append (h : quotedLength? cs = some n) (more : List Char) :
    quotedLength? (cs ++ more) = some n := by
  fun_induction quotedLength? cs generalizing n with
  | case1 => cases h
  | case2 rest => exact h
  | case3 c rest ih =>
    obtain ⟨k, hk, rfl⟩ := Option.map_eq_some_iff.mp h
    rw [List.cons_append, List.cons_append, quotedLength?, ih hk]
    rfl
  | case4 c rest hquote hescape ih =>
    obtain ⟨k, hk, rfl⟩ := Option.map_eq_some_iff.mp h
    have hescape' : ∀ d rest', c = '\\' → rest ++ more = d :: rest' → False := by
      rintro d rest' rfl -
      cases rest with
      | nil => cases hk
      | cons d rest' => exact hescape d rest' rfl rfl
    rw [List.cons_append, quotedLength?.eq_4 _ _ hquote hescape', ih hk]
    rfl

theorem quotedLength?_split (h : quotedLength? cs = some n) :
    ∃ body more, cs = body ++ '"' :: more ∧ body.length = n ∧
      quotedLength? (body ++ ['"']) = some n := by
  fun_induction quotedLength? cs generalizing n with
  | case1 => cases h
  | case2 rest =>
    cases h
    exact ⟨[], rest, rfl, rfl, rfl⟩
  | case3 c rest ih =>
    obtain ⟨k, hk, rfl⟩ := Option.map_eq_some_iff.mp h
    obtain ⟨body, more, rfl, rfl, hbody⟩ := ih hk
    refine ⟨'\\' :: c :: body, more, rfl, rfl, ?_⟩
    rw [List.cons_append, List.cons_append, quotedLength?, hbody]
    rfl
  | case4 c rest hquote hescape ih =>
    obtain ⟨k, hk, rfl⟩ := Option.map_eq_some_iff.mp h
    obtain ⟨body, more, rfl, rfl, hbody⟩ := ih hk
    refine ⟨c :: body, more, rfl, rfl, ?_⟩
    have hescape' : ∀ d rest', c = '\\' → body ++ ['"'] = d :: rest' → False := by
      rintro d rest' rfl -
      cases body with
      | nil => exact hescape '"' more rfl rfl
      | cons d rest' => exact hescape d _ rfl rfl
    rw [List.cons_append, quotedLength?.eq_4 _ _ hquote hescape', hbody]
    rfl

end Quotes

section Numbers

variable {c : Char} {ds fs more : List Char}

theorem readNumber_magnitude (hds : ∀ d ∈ ds, d.isDigit = true)
    (hmore : ∀ d ∈ more.head?, (d.isDigit || d == '.') = false)
    (hvalue : digitsToNat (c :: ds) ≤ largestMagnitude) :
    readNumber c (ds ++ more) = .ok (.magnitude (digitsToNat (c :: ds)), ds.length) := by
  have hstop : ∀ d ∈ more.head?, d.isDigit = false := fun d hd => by
    simpa using (Bool.or_eq_false_iff.mp (hmore d hd)).1
  unfold readNumber
  rw [takeWhile_append_stop hds hstop, dropWhile_append_stop hds hstop]
  split
  · have := hmore '.' rfl
    cases this
  · simp [hvalue]

theorem readNumber_single (hds : ∀ d ∈ ds, d.isDigit = true) (hfs : ∀ d ∈ fs, d.isDigit = true)
    (hmore : ∀ d ∈ more.head?, (d.isDigit || (d == '.' && !fs.isEmpty)) = false) :
    readNumber c (ds ++ '.' :: fs ++ more) =
      .ok (.single (Single.ofDecimal (digitsToNat (c :: ds ++ fs)) fs.length),
        (ds ++ '.' :: fs).length) := by
  have hstop : ∀ d ∈ more.head?, d.isDigit = false := fun d hd =>
    (Bool.or_eq_false_iff.mp (hmore d hd)).1
  have hpoint : ∀ d ∈ ('.' :: fs ++ more).head?, d.isDigit = false := by
    rintro _ ⟨⟩
    rfl
  unfold readNumber
  rw [List.append_assoc, takeWhile_append_stop hds hpoint, dropWhile_append_stop hds hpoint]
  simp only [List.cons_append]
  rw [takeWhile_append_stop hfs hstop, dropWhile_append_stop hfs hstop]
  split
  · have hempty : fs = [] := by simpa using hmore '.' rfl
    subst hempty
    simp
  · simp only [List.length_append, List.length_cons]
    rw [Nat.add_right_comm, Nat.add_assoc]

/-- A text that is read as a number begins with the digits of one. -/
theorem spells_of_readNumber {text : List Char} {kind : LexemeKind} {n : Nat}
    (hc : c.isDigit = true) (h : readNumber c text = .ok (kind, n)) :
    ∃ cs more glues, text = cs ++ more ∧ cs.length = n ∧ Spells kind c cs glues ∧
      ∀ d ∈ more.head?, glues d = false := by
  obtain ⟨ds, after, rfl, hds, hstop⟩ := exists_run Char.isDigit text
  unfold readNumber at h
  rw [takeWhile_append_stop hds hstop, dropWhile_append_stop hds hstop] at h
  dsimp only at h
  split at h
  · rename_i more
    obtain ⟨fs, rest, rfl, hfs, hstop'⟩ := exists_run Char.isDigit more
    rw [takeWhile_append_stop hfs hstop', dropWhile_append_stop hfs hstop'] at h
    split at h
    · rename_i tail
      by_cases hempty : fs.isEmpty = true
      · obtain rfl := List.isEmpty_iff.mp hempty
        cases h
        have hspells := Spells.single hc hds hfs
        rw [List.append_nil] at hspells
        refine ⟨ds ++ ['.'], '.' :: tail, _, by simp, by simp, hspells, ?_⟩
        rintro _ ⟨⟩
        rfl
      · rw [if_neg hempty] at h
        cases h
    · rename_i hnopoint
      cases h
      refine ⟨ds ++ '.' :: fs, rest, _, by simp, ?_, .single hc hds hfs, fun d hd => ?_⟩
      · simp only [List.length_append, List.length_cons]
        rw [Nat.add_right_comm, Nat.add_assoc]
      · simp [hstop' d hd, ne_of_mem_head? hnopoint hd]
  · rename_i hnopoint
    split at h
    · rename_i hvalue
      cases h
      refine ⟨ds, after, _, rfl, rfl, .magnitude hc hds hvalue, fun d hd => ?_⟩
      simp [hstop d hd, ne_of_mem_head? hnopoint hd]
    · cases h

end Numbers

section Dots

variable {fs more : List Char}

theorem readDot_dot (hmore : ∀ d ∈ more.head?, (d.isDigit || d == '.') = false) :
    readDot more = (.dot, 0) := by
  cases more with
  | nil => rfl
  | cons d rest =>
    obtain ⟨hdigit, hpoint⟩ := Bool.or_eq_false_iff.mp (hmore d rfl)
    unfold readDot
    have hne : d ≠ '.' := by simpa using hpoint
    split
    · rename_i heq
      exact absurd (List.cons.inj heq).1 hne
    · rename_i heq
      exact absurd (List.cons.inj heq).1 hne
    · simp [hdigit]

theorem readDot_twoDots (hmore : ∀ d ∈ more.head?, (d == '.') = false) :
    readDot ('.' :: more) = (.twoDots, 1) := by
  cases more with
  | nil => rfl
  | cons d rest =>
    have hne : d ≠ '.' := by simpa using hmore d rfl
    unfold readDot
    split
    · rename_i heq
      exact absurd (List.cons.inj (List.cons.inj heq).2).1 hne
    · rfl
    · rename_i hother
      exact absurd rfl (hother (d :: rest))

theorem readDot_fraction (hfs : ∀ d ∈ fs, d.isDigit = true) (hne : fs ≠ [])
    (hmore : ∀ d ∈ more.head?, d.isDigit = false) :
    readDot (fs ++ more) = (.single (Single.ofDecimal (digitsToNat fs) fs.length), fs.length) := by
  have hpoint (tail : List Char) : fs ++ more ≠ '.' :: tail := by
    intro heq
    cases fs with
    | nil => exact hne rfl
    | cons d rest =>
      obtain ⟨rfl, -⟩ := List.cons.inj heq
      exact absurd (hfs '.' List.mem_cons_self) (by decide)
  unfold readDot
  split
  · exact absurd ‹_› (hpoint _)
  · exact absurd ‹_› (hpoint _)
  · rw [takeWhile_append_stop hfs hmore]
    simp [hne]

theorem spells_of_readDot {text : List Char} {kind : LexemeKind} {n : Nat}
    (h : readDot text = (kind, n)) :
    ∃ cs more glues, text = cs ++ more ∧ cs.length = n ∧ Spells kind '.' cs glues ∧
      ∀ d ∈ more.head?, glues d = false := by
  unfold readDot at h
  split at h
  · rename_i rest
    cases h
    exact ⟨['.', '.'], rest, _, rfl, rfl, .ellipsis, fun _ _ => rfl⟩
  · rename_i rest hthree
    cases h
    refine ⟨['.'], rest, _, rfl, rfl, .twoDots, fun d hd => ?_⟩
    simpa using ne_of_mem_head? hthree hd
  · rename_i htwo hthree
    obtain ⟨fs, more, rfl, hfs, hstop⟩ := exists_run Char.isDigit text
    rw [takeWhile_append_stop hfs hstop] at h
    by_cases hempty : fs.isEmpty = true
    · obtain rfl := List.isEmpty_iff.mp hempty
      cases h
      refine ⟨[], more, _, rfl, rfl, .dot, fun d hd => ?_⟩
      simp [hstop d hd, ne_of_mem_head? hthree hd]
    · dsimp only at h
      rw [if_neg hempty] at h
      cases h
      exact ⟨fs, more, _, rfl, rfl, .fraction hfs (fun hnil => hempty (List.isEmpty_iff.mpr hnil)), hstop⟩

end Dots

section Symbols

variable {c : Char} {cs more : List Char} {kind : LexemeKind} {n : Nat}

/-- A symbol is read whatever follows it that does not make it longer. -/
theorem readSymbol?_append (h : readSymbol? c cs = some (kind, n)) (hlength : cs.length = n)
    (hmore : ∀ d ∈ more.head?, symbolGlues c cs d = false) :
    readSymbol? c (cs ++ more) = some (kind, n) := by
  unfold readSymbol? at h
  split at h <;> cases h
  all_goals
    simp at hlength
    subst hlength
  all_goals
    rcases more with _ | ⟨d, rest⟩
    · rfl
    · first
      | rfl
      | have hd := hmore d rfl
        simp [symbolGlues] at hd
        simp [readSymbol?, hd]

/-- The longest symbol is taken, so the character after it does not make it longer. -/
theorem readSymbol?_split {text : List Char} (hcomment : c = '/' → text.head? ≠ some '/')
    (h : readSymbol? c text = some (kind, n)) :
    (text.take n).length = n ∧ readSymbol? c (text.take n) = some (kind, n) ∧
      ∀ d ∈ (text.drop n).head?, symbolGlues c (text.take n) d = false := by
  unfold readSymbol? at h
  split at h <;> cases h
  all_goals
    refine ⟨rfl, rfl, fun d hd => ?_⟩
    first
    | rfl
    | obtain ⟨tail, htail⟩ := List.head?_eq_some_iff.mp hd
      simp_all [symbolGlues]

end Symbols

section Characters

variable {c : Char} {cs : List Char} {kind : LexemeKind} {n : Nat}

/-- A character of a class is none that is not in it. -/
theorem beq_false_of_class {p : Char → Bool} {d : Char} (hd : p d = false) (hc : p c = true) :
    (c == d) = false := by
  rw [beq_eq_false_iff_ne]
  rintro rfl
  rw [hd] at hc
  cases hc

theorem not_isGap_of_class {p : Char → Bool} (hblank : p ' ' = false) (htab : p '\t' = false)
    (hreturn : p '\r' = false) (hfeed : p '\x0c' = false) (hvertical : p '\x0b' = false)
    (hc : p c = true) : isGap c = false := by
  rw [isGap, beq_false_of_class hblank hc, beq_false_of_class htab hc,
    beq_false_of_class hreturn hc, beq_false_of_class hfeed hc, beq_false_of_class hvertical hc]
  rfl

theorem not_isDigit_of_isWordStart (h : isWordStart c = true) : c.isDigit = false := by
  cases hdigit : c.isDigit with
  | false => rfl
  | true =>
    have hhigh : c.val ≤ 57 := of_decide_eq_true ((Bool.and_eq_true _ _).mp hdigit).2
    have hlow : 65 ≤ c.val := by
      rcases (Bool.or_eq_true _ _).mp h with halpha | hunderscore
      · rcases (Bool.or_eq_true _ _).mp halpha with hupper | hlower
        · exact (of_decide_eq_true hupper).1
        · have hlower : 97 ≤ c.val := of_decide_eq_true ((Bool.and_eq_true _ _).mp hlower).1
          exact UInt32.le_trans (by decide) hlower
      · obtain rfl := eq_of_beq hunderscore
        decide
    exact absurd (UInt32.le_trans hlow hhigh) (by decide)

/-- The characters that symbols begin with begin nothing else. -/
theorem not_other_of_readSymbol? (h : readSymbol? c cs = some (kind, n)) :
    (c == '"') = false ∧ c.isDigit = false ∧ (c == '.') = false ∧ isWordStart c = false ∧
      isGap c = false := by
  unfold readSymbol? at h
  split at h <;> first | decide | cases h

end Characters

namespace Spells

variable {c : Char} {cs more : List Char} {kind : LexemeKind} {glues : Char → Bool}

/-- A blank ends every lexeme. -/
theorem blank (h : Spells kind c cs glues) : glues ' ' = false := by
  cases h with
  | symbol hread =>
    unfold symbolGlues
    split <;> rfl
  | _ => rfl

theorem not_gap (h : Spells kind c cs glues) : isGap c = false := by
  cases h with
  | magnitude hc | single hc => exact not_isGap_of_class rfl rfl rfl rfl rfl hc
  | word hc => exact not_isGap_of_class rfl rfl rfl rfl rfl hc
  | symbol hread => exact (not_other_of_readSymbol? hread).2.2.2.2
  | _ => rfl

theorem not_comment (h : Spells kind c cs glues) (hmore : ∀ d ∈ more.head?, glues d = false) :
    (c == '/' && (cs ++ more).head? == some '/') = false := by
  cases h with
  | magnitude hc | single hc => rw [beq_false_of_class (p := Char.isDigit) rfl hc, Bool.false_and]
  | word hc => rw [beq_false_of_class (p := isWordStart) rfl hc, Bool.false_and]
  | symbol hread =>
    by_cases hslash : c = '/'
    · subst hslash
      cases cs with
      | nil =>
        cases more with
        | nil => rfl
        | cons d rest =>
          obtain ⟨hne, -⟩ := Bool.or_eq_false_iff.mp (hmore d rfl)
          simpa using hne
      | cons d rest =>
        have hne : d ≠ '/' := by
          rintro rfl
          cases hread
        simp [hne]
    · simp [hslash]
  | _ => rfl

/-- What is spelled is read. -/
theorem read_eq (h : Spells kind c cs glues) (hmore : ∀ d ∈ more.head?, glues d = false) :
    read c (cs ++ more) = .ok (kind, cs.length) := by
  cases h with
  | @quoted body value hlength hvalue =>
    have hquoted : readQuoted (body ++ ['"'] ++ more) =
        .ok (.quoted (String.ofList value), body.length + 1) := by
      unfold readQuoted
      rw [quotedLength?_append hlength]
      dsimp only
      rw [List.append_assoc, List.take_left, hvalue]
    rw [List.length_append]
    exact hquoted
  | magnitude hc hds hvalue =>
    rw [read, beq_false_of_class (p := Char.isDigit) rfl hc, hc]
    exact readNumber_magnitude hds hmore hvalue
  | single hc hds hfs =>
    rw [read, beq_false_of_class (p := Char.isDigit) rfl hc, hc]
    exact readNumber_single hds hfs hmore
  | fraction hfs hne =>
    exact congrArg Except.ok (readDot_fraction hfs hne hmore)
  | word hc hcs =>
    rw [read, beq_false_of_class (p := isWordStart) rfl hc, not_isDigit_of_isWordStart hc,
      beq_false_of_class (p := isWordStart) rfl hc, hc, takeWhile_append_stop hcs hmore]
    rfl
  | dot => exact congrArg Except.ok (readDot_dot hmore)
  | twoDots => exact congrArg Except.ok (readDot_twoDots hmore)
  | ellipsis => rfl
  | symbol hread =>
    obtain ⟨hquote, hdigit, hdot, hword, -⟩ := not_other_of_readSymbol? hread
    rw [read, hquote, hdigit, hdot, hword, readSymbol?_append hread rfl hmore]
    rfl

end Spells

/-- What is read is spelled, and nothing follows that the lexeme would have taken in. -/
theorem spells_of_read {c : Char} {text : List Char} {kind : LexemeKind} {n : Nat}
    (hcomment : c = '/' → text.head? ≠ some '/') (h : read c text = .ok (kind, n)) :
    ∃ cs more glues, text = cs ++ more ∧ cs.length = n ∧ Spells kind c cs glues ∧
      ∀ d ∈ more.head?, glues d = false := by
  unfold read at h
  split at h
  · rename_i hquote
    obtain rfl := eq_of_beq hquote
    unfold readQuoted at h
    split at h
    · cases h
    · rename_i length hlength
      obtain ⟨body, more, rfl, rfl, hbody⟩ := quotedLength?_split hlength
      rw [List.take_left] at h
      split at h
      · cases h
      · rename_i value hvalue
        cases h
        exact ⟨body ++ ['"'], more, _, by simp, by simp, .quoted hbody hvalue, fun _ _ => rfl⟩
  split at h
  · rename_i hdigit
    exact spells_of_readNumber hdigit h
  split at h
  · rename_i hdot
    obtain rfl := eq_of_beq hdot
    exact spells_of_readDot (Except.ok.inj h)
  split at h
  · rename_i hword
    obtain ⟨cs, more, rfl, hcs, hmore⟩ := exists_run isWordChar text
    rw [takeWhile_append_stop hcs hmore] at h
    cases h
    exact ⟨cs, more, _, rfl, rfl, .word hword hcs, hmore⟩
  split at h
  · rename_i symbol hsymbol
    cases h
    obtain ⟨hlength, hread, hmore⟩ := readSymbol?_split hcomment hsymbol
    exact ⟨text.take n, text.drop n, _, (List.take_append_drop n text).symm, hlength,
      .symbol (hlength.symm ▸ hread), hmore⟩
  · cases h

end BuildScript.Lexeme
