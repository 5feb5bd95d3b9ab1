import BuildScript.Machine
import Mathlib.Data.List.Infix

/-!
How a diagnostic is laid out. A format has blanks for the file, the line and the message, each written
as a word in braces. They are filled in one after the other, each in the text that the one before has
given, so a file name can bring in blanks that the format does not have.
-/

namespace BuildScript

namespace Layout

/-- What a format leaves open. -/
inductive Blank where
  | file
  | line
  | message
  deriving DecidableEq

/-- How a blank is written. -/
def Blank.word : Blank → List Char
  | file => ['{', 'f', 'i', 'l', 'e', '}']
  | line => ['{', 'l', 'i', 'n', 'e', '}']
  | message => ['{', 'm', 'e', 's', 's', 'a', 'g', 'e', '}']

inductive Piece where
  | char (c : Char)
  | blank (blank : Blank)

/-- The text that pieces give when each blank gets its text. -/
def fill (texts : Blank → List Char) (pieces : List Piece) : List Char :=
  pieces.flatMap fun
    | .char c => [c]
    | .blank blank => texts blank

def written : List Piece → List Char := fill Blank.word

/-- The blank that a text begins with. -/
def blankAt (text : List Char) : Option Blank :=
  [Blank.file, .line, .message].find? (·.word.isPrefixOf text)

/-- Drops `skip` characters, which belong to a blank already read, and goes on. -/
def piecesFrom : Nat → List Char → List Piece
  | _, [] => []
  | skip + 1, _ :: rest => piecesFrom skip rest
  | 0, c :: rest =>
    match blankAt (c :: rest) with
    | some blank => .blank blank :: piecesFrom (blank.word.length - 1) rest
    | none => .char c :: piecesFrom 0 rest

/-- A format as it reads. -/
def pieces (format : List Char) : List Piece := piecesFrom 0 format

/-- The pieces with a text in one of the blanks. The characters of the text are just that. -/
def put (blank : Blank) (text : List Char) (pieces : List Piece) : List Piece :=
  pieces.flatMap fun
    | .char c => [.char c]
    | .blank other => if other = blank then text.map .char else [.blank other]

/-- Characters of the pieces happen to spell a blank. -/
def Forms (blank : Blank) (pieces : List Piece) : Prop := blank.word.map .char <:+: pieces

/-- A text without digits. -/
def DigitFree (text : List Char) : Prop := ∀ c ∈ text, c.isDigit = false

/-- A text of digits, of which there is at least one. -/
def IsNumber (text : List Char) : Prop := text ≠ [] ∧ ∀ c ∈ text, c.isDigit = true

/-- How written pieces read: characters that spell a blank have become one. -/
inductive Reread : List Piece → List Piece → Prop
  | nil : Reread [] []
  | blank (x : Blank) {ms qs : List Piece} (h : Reread ms qs) :
      Reread (.blank x :: ms) (.blank x :: qs)
  | spelled (x : Blank) {ms qs : List Piece} (h : Reread ms qs) :
      Reread (x.word.map .char ++ ms) (.blank x :: qs)
  | char {c : Char} {ms qs : List Piece}
      (hplain : ∀ x : Blank, ¬x.word.map .char <+: .char c :: ms) (h : Reread ms qs) :
      Reread (.char c :: ms) (.char c :: qs)

variable {x y : Blank} {c : Char} {text word rest : List Char} {ms qs : List Piece}

section Words

theorem Blank.word_eq (x : Blank) : ∃ inner, x.word = '{' :: inner ∧ '{' ∉ inner := by
  cases x <;> exact ⟨_, rfl, by decide⟩

theorem Blank.digitFree (x : Blank) : DigitFree x.word := by
  have hall : (x.word.all fun c => !c.isDigit) = true := by cases x <;> rfl
  simpa [DigitFree] using hall

theorem DigitFree.append {first second : List Char} (h : DigitFree first)
    (h' : DigitFree second) : DigitFree (first ++ second) := by
  intro c hc
  rcases List.mem_append.mp hc with hfirst | hsecond
  · exact h c hfirst
  · exact h' c hsecond

theorem Blank.eq_of_begins (h : x.word <+: y.word ++ rest) : x = y := by
  cases x <;> cases y <;> first | rfl | simp [word] at h

theorem Blank.word_length_pos (x : Blank) : 0 < x.word.length := by
  cases x <;> decide

end Words

section Written

variable {texts : Blank → List Char}

@[simp]
theorem fill_nil : fill texts [] = [] := rfl

@[simp]
theorem fill_char : fill texts (.char c :: ms) = c :: fill texts ms := by
  simp [fill]

@[simp]
theorem fill_blank : fill texts (.blank x :: ms) = texts x ++ fill texts ms := by
  simp [fill]

@[simp]
theorem fill_append : fill texts (ms ++ qs) = fill texts ms ++ fill texts qs := by
  simp [fill]

@[simp]
theorem fill_chars (text : List Char) : fill texts (text.map .char) = text := by
  induction text with
  | nil => rfl
  | cons c text ih => simp [ih]

@[simp]
theorem put_nil : put x text [] = [] := rfl

@[simp]
theorem put_char : put x text (.char c :: ms) = .char c :: put x text ms := by
  simp [put]

@[simp]
theorem put_self : put x text (.blank x :: ms) = text.map .char ++ put x text ms := by
  simp [put]

theorem put_other (h : y ≠ x) : put x text (.blank y :: ms) = .blank y :: put x text ms := by
  simp [put, h]

theorem fill_put : fill texts (put x text ms) = fill (Function.update texts x text) ms := by
  induction ms with
  | nil => rfl
  | cons piece ms ih =>
    cases piece with
    | char c => simp [ih]
    | blank y =>
      by_cases hy : y = x
      · subst hy
        simp [ih]
      · simp [put_other hy, hy, ih]

/-- Where no blank can begin, only characters are written. -/
theorem chars_begin (hplain : '{' ∉ word) (h : word <+: written ms) : word.map .char <+: ms := by
  induction word generalizing ms with
  | nil => simp
  | cons c word ih =>
    simp only [List.mem_cons, not_or] at hplain
    cases ms with
    | nil => simp [written] at h
    | cons piece ms =>
      cases piece with
      | char d =>
        simp only [written, fill_char, List.cons_prefix_cons] at h
        simpa [h.1] using ih hplain.2 h.2
      | blank y =>
        obtain ⟨inner, hword, -⟩ := y.word_eq
        simp [written, hword, List.cons_prefix_cons, Ne.symm hplain.1] at h

/-- A blank is found only where it is, or where characters spell it. -/
theorem spelled_begins (h : x.word <+: c :: written ms) : x.word.map .char <+: .char c :: ms := by
  obtain ⟨inner, hword, hplain⟩ := x.word_eq
  rw [hword, List.cons_prefix_cons] at h
  rw [hword, List.map_cons, List.cons_prefix_cons]
  exact ⟨by rw [h.1], chars_begin hplain h.2⟩

theorem written_begins (h : qs <+: ms) : written qs <+: written ms := by
  obtain ⟨others, rfl⟩ := h
  simp [written]

end Written

section Replacing

theorem replaceFrom_skip (pattern : List Char) :
    Text.replaceFrom pattern text word.length (word ++ rest) =
      Text.replaceFrom pattern text 0 rest := by
  induction word with
  | nil => rfl
  | cons c word ih => simpa [Text.replaceFrom] using ih

theorem replaceFrom_word :
    Text.replaceFrom x.word text 0 (x.word ++ rest) =
      text ++ Text.replaceFrom x.word text 0 rest := by
  obtain ⟨inner, hword, -⟩ := x.word_eq
  have hbegins : (x.word.isPrefixOf ('{' :: (inner ++ rest))) = true := by simp [hword]
  calc Text.replaceFrom x.word text 0 (x.word ++ rest)
      = text ++ Text.replaceFrom x.word text (x.word.length - 1) (inner ++ rest) := by
        conv_lhs => rw [hword, List.cons_append, ← hword, Text.replaceFrom, if_pos hbegins]
    _ = text ++ Text.replaceFrom x.word text 0 rest := by
        rw [hword, List.length_cons, Nat.add_sub_cancel, replaceFrom_skip]

theorem replaceFrom_plain (h : ¬x.word <+: c :: rest) :
    Text.replaceFrom x.word text 0 (c :: rest) = c :: Text.replaceFrom x.word text 0 rest := by
  rw [Text.replaceFrom, if_neg (by simpa using h)]

theorem replaceFrom_inner (hplain : '{' ∉ word) :
    Text.replaceFrom x.word text 0 (word ++ rest) =
      word ++ Text.replaceFrom x.word text 0 rest := by
  induction word with
  | nil => rfl
  | cons c word ih =>
    obtain ⟨inner, hword, -⟩ := x.word_eq
    simp only [List.mem_cons, not_or] at hplain
    rw [List.cons_append, replaceFrom_plain, ih hplain.2, List.cons_append]
    rw [hword, List.cons_prefix_cons]
    tauto

/-- Unless characters spell a blank, replacing its word fills it in where it is and nowhere else. -/
theorem replaceFrom_written (h : ¬Forms x ms) :
    Text.replaceFrom x.word text 0 (written ms) = written (put x text ms) := by
  induction ms with
  | nil => rfl
  | cons piece ms ih =>
    simp only [Forms, List.infix_cons_iff, not_or] at h
    have ih := ih h.2
    cases piece with
    | char c =>
      have hplain : ¬x.word <+: c :: written ms := fun hbegins => h.1 (spelled_begins hbegins)
      simpa [written] using (replaceFrom_plain hplain).trans (congrArg (c :: ·) ih)
    | blank y =>
      by_cases hy : y = x
      · subst hy
        simpa [written] using replaceFrom_word.trans (congrArg (text ++ ·) ih)
      · obtain ⟨inner, hword, hinner⟩ := y.word_eq
        have hplain : ¬x.word <+: '{' :: (inner ++ written ms) := by
          intro hbegins
          rw [← List.cons_append, ← hword] at hbegins
          exact hy (Blank.eq_of_begins hbegins).symm
        rw [put_other hy]
        simp only [written, fill_blank, hword, List.cons_append] at ih hplain ⊢
        rw [replaceFrom_plain hplain, replaceFrom_inner hinner, ih]

end Replacing

section Reading

theorem piecesFrom_skip : piecesFrom word.length (word ++ rest) = pieces rest := by
  induction word with
  | nil => rfl
  | cons c word ih => simpa [piecesFrom] using ih

theorem blankAt_eq_some : blankAt text = some x ↔ x.word <+: text := by
  constructor
  · intro h
    simpa using List.find?_some h
  · intro h
    cases hat : blankAt text with
    | none =>
      have hnone := List.find?_eq_none.mp hat x (by cases x <;> simp)
      simp [h] at hnone
    | some y =>
      have hy : y.word <+: text := by simpa using List.find?_some hat
      obtain ⟨others, rfl⟩ := h
      rw [Blank.eq_of_begins hy]

theorem pieces_word (x : Blank) (rest : List Char) :
    pieces (x.word ++ rest) = .blank x :: pieces rest := by
  obtain ⟨inner, hword, -⟩ := x.word_eq
  have hat : blankAt ('{' :: (inner ++ rest)) = some x := blankAt_eq_some.mpr (by simp [hword])
  have hlength : x.word.length - 1 = inner.length := by simp [hword]
  rw [hword, List.cons_append, pieces, piecesFrom]
  simp only [hat, hlength, piecesFrom_skip]

theorem pieces_plain (h : ∀ x : Blank, ¬x.word <+: c :: rest) :
    pieces (c :: rest) = .char c :: pieces rest := by
  have hat : blankAt (c :: rest) = none := by
    cases hat : blankAt (c :: rest) with
    | none => rfl
    | some x => exact absurd (blankAt_eq_some.mp hat) (h x)
  rw [pieces, piecesFrom]
  simp only [hat]
  rfl

theorem reread (ms : List Piece) : Reread ms (pieces (written ms)) := by
  by_cases hspelled : ∃ x : Blank, x.word.map .char <+: ms
  · obtain ⟨x, others, hms⟩ := hspelled
    have hshorter : others.length < ms.length := by simp [← hms, x.word_length_pos]
    have hpieces : pieces (written (x.word.map .char ++ others)) =
        .blank x :: pieces (written others) := by
      simpa [written] using pieces_word x (written others)
    rw [← hms, hpieces]
    exact .spelled x (reread others)
  · cases ms with
    | nil => exact .nil
    | cons piece ms =>
      cases piece with
      | blank x =>
        have hpieces : pieces (written (.blank x :: ms)) = .blank x :: pieces (written ms) := by
          simpa [written] using pieces_word x (written ms)
        rw [hpieces]
        exact .blank x (reread ms)
      | char c =>
        have hplain (x : Blank) : ¬x.word.map .char <+: .char c :: ms :=
          fun h => hspelled ⟨x, h⟩
        have hpieces : pieces (written (.char c :: ms)) = .char c :: pieces (written ms) :=
          pieces_plain fun x h => hplain x (spelled_begins h)
        rw [hpieces]
        exact .char hplain (reread ms)
termination_by ms.length

theorem Reread.written_eq (h : Reread ms qs) : written qs = written ms := by
  induction h with
  | nil => rfl
  | blank x _ ih | char _ _ ih => simpa [written] using ih
  | spelled x _ ih => simpa [written] using ih

theorem forms_inner (hplain : '{' ∉ word) : Forms x (word.map .char ++ ms) ↔ Forms x ms := by
  induction word with
  | nil => rfl
  | cons c word ih =>
    obtain ⟨inner, hword, -⟩ := x.word_eq
    simp only [List.mem_cons, not_or] at hplain
    rw [← ih hplain.2]
    simp [Forms, List.infix_cons_iff, hword, hplain.1]

theorem forms_blank : Forms x (.blank y :: ms) ↔ Forms x ms := by
  obtain ⟨inner, hword, -⟩ := x.word_eq
  simp [Forms, List.infix_cons_iff, hword, List.cons_prefix_cons]

theorem forms_spelled : Forms x (y.word.map .char ++ ms) ↔ x = y ∨ Forms x ms := by
  obtain ⟨inner, hword, hinner⟩ := y.word_eq
  constructor
  · intro h
    rw [hword, List.map_cons, List.cons_append, Forms, List.infix_cons_iff] at h
    rcases h with hbegins | hlater
    · left
      have hwritten : x.word <+: y.word ++ written ms := by
        simpa [written, hword] using written_begins hbegins
      exact Blank.eq_of_begins hwritten
    · exact .inr ((forms_inner hinner).mp hlater)
  · rintro (rfl | h)
    · exact ⟨[], ms, by simp⟩
    · exact h.trans (List.suffix_append _ _).isInfix

theorem Reread.forms (h : Reread ms qs) : ¬Forms x qs := by
  induction h with
  | nil =>
    obtain ⟨inner, hword, -⟩ := x.word_eq
    simp [Forms, hword]
  | blank y _ ih | spelled y _ ih => rwa [forms_blank]
  | char hplain hread ih =>
    rw [Forms, List.infix_cons_iff, not_or]
    refine ⟨fun h => hplain x ?_, ih⟩
    have hwritten := written_begins h
    simp only [written, fill_chars, fill_char] at hwritten
    rw [← written, hread.written_eq] at hwritten
    exact spelled_begins hwritten

theorem written_pieces (text : List Char) : written (pieces text) = text := by
  have hread := (reread (text.map .char)).written_eq
  simpa [written] using hread

theorem not_forms_pieces (text : List Char) : ¬Forms x (pieces text) := by
  have hforms := (reread (text.map .char)).forms (x := x)
  simpa [written] using hforms

end Reading

section Differing

variable {texts : Blank → List Char} {a b u as bs : List Char}

theorem forms_char (hplain : ∀ x : Blank, ¬x.word.map .char <+: .char c :: ms) :
    Forms x (.char c :: ms) ↔ Forms x ms := by
  simp [Forms, List.infix_cons_iff, hplain x]

/-- If all blanks that are spelled get their own words, it does not matter that they are read. -/
theorem Reread.fill_eq (h : Reread ms qs) (hown : ∀ x, Forms x ms → texts x = x.word) :
    fill texts qs = fill texts ms := by
  induction h with
  | nil => rfl
  | blank y _ ih =>
    simp only [forms_blank] at hown
    simp [ih hown]
  | spelled y _ ih =>
    have hlater := ih fun x h => hown x (forms_spelled.mpr (.inr h))
    simp [hlater, hown y (forms_spelled.mpr (.inl rfl))]
  | char hplain _ ih =>
    simp only [forms_char hplain] at hown
    simp [ih hown]

/-- The texts of the second reading: the file is in place, and the line is a number. -/
structure Numbered (texts : Blank → List Char) : Prop where
  file : texts .file = Blank.file.word
  line : IsNumber (texts .line)

/-- What is ahead of another text on a part that is longer stays ahead of it on the rest. -/
theorem ahead_step (h : u ++ (a ++ as) = b ++ bs) (hlength : b.length < u.length + a.length) :
    ∃ v, 0 < v.length ∧ v ++ as = bs ∧ v ⊆ u ++ a := by
  rw [← List.append_assoc, List.append_eq_append_iff] at h
  rcases h with ⟨v, hb, -⟩ | ⟨v, hua, hbs⟩
  · have hlengths := congrArg List.length hb
    simp only [List.length_append] at hlengths
    omega
  · refine ⟨v, ?_, hbs.symm, by simp [hua]⟩
    have hlengths := congrArg List.length hua
    simp only [List.length_append] at hlengths
    omega

/-- With a message longer than its word, the text of the second reading stays ahead once it is. -/
theorem Reread.stays_ahead (hread : Reread ms qs) (hnumbered : Numbered texts)
    (hlong : Blank.message.word.length < (texts .message).length) (hu : 0 < u.length) :
    u ++ fill texts qs ≠ fill texts ms := by
  induction hread generalizing u with
  | nil => simpa [← List.length_pos_iff] using hu
  | blank x hread ih =>
    intro h
    simp only [fill_blank] at h
    obtain ⟨v, hv, hlater, -⟩ := ahead_step h (by omega)
    exact ih hv hlater
  | char hplain hread ih =>
    intro h
    obtain ⟨v, hv, hlater, -⟩ := ahead_step (a := [_]) (b := [_]) (by simpa using h) (by simpa)
    exact ih hv hlater
  | spelled x hread ih =>
    intro h
    simp only [fill_blank, fill_append, fill_chars] at h
    have hlength : x.word.length < u.length + (texts x).length := by
      cases x with
      | file =>
        rw [hnumbered.file]
        omega
      | message => omega
      | line =>
        -- Else the digits of the number would be among the letters of its word.
        by_contra hshort
        obtain ⟨d, number, hnumber⟩ := List.exists_cons_of_ne_nil hnumbered.line.1
        have hd : d ∈ texts .line := by simp [hnumber]
        have hbegins : u ++ texts .line <+: Blank.line.word := by
          apply List.prefix_of_prefix_length_le ⟨_, List.append_assoc _ _ _⟩ ⟨_, h.symm⟩
          simp only [List.length_append]
          omega
        have hmem : d ∈ Blank.line.word :=
          hbegins.subset (List.mem_append_right _ hd)
        simpa [Blank.line.digitFree d hmem] using hnumbered.line.2 d hd
    obtain ⟨v, hv, hlater, -⟩ := ahead_step h hlength
    exact ih hv hlater

theorem Numbered.line_ne (h : Numbered texts) (hu : 0 < u.length)
    (hdigits : DigitFree u) : u ++ as ≠ texts .line ++ bs := by
  intro heq
  obtain ⟨c, u', rfl⟩ := List.exists_cons_of_length_pos hu
  obtain ⟨d, number, hnumber⟩ := List.exists_cons_of_ne_nil h.line.1
  rw [hnumber] at heq
  have hhead : c = d := (List.cons.inj heq).1
  have hdigit := h.line.2 d (by simp [hnumber])
  simp [← hhead, hdigits c List.mem_cons_self] at hdigit

/-- With texts no longer than their words and without digits, except for the number, the text of the
second reading stays behind once it is, by characters that are no digits. -/
theorem Reread.stays_behind (hread : Reread ms qs) (hnumbered : Numbered texts)
    (hshort : ∀ x ≠ Blank.line, (texts x).length ≤ x.word.length)
    (hletters : ∀ x ≠ Blank.line, DigitFree (texts x)) (hu : 0 < u.length)
    (hdigits : DigitFree u) : u ++ fill texts ms ≠ fill texts qs := by
  induction hread generalizing u with
  | nil => simpa [← List.length_pos_iff] using hu
  | blank x hread ih =>
    intro h
    simp only [fill_blank] at h
    have hx : x ≠ .line := by
      rintro rfl
      exact hnumbered.line_ne hu hdigits h
    obtain ⟨v, hv, hlater, hmem⟩ := ahead_step h (by omega)
    exact ih hv (fun c hc => hdigits.append (hletters x hx) c (hmem hc)) hlater
  | @char c ms qs hplain hread ih =>
    intro h
    obtain ⟨d, u', rfl⟩ := List.exists_cons_of_length_pos hu
    simp only [fill_char, List.cons_append, List.cons.injEq] at h
    obtain ⟨rfl, hlater⟩ := h
    apply ih (u := u' ++ [d]) (by simp) _ (by simpa using hlater)
    simpa [DigitFree, or_comm] using hdigits
  | spelled x hread ih =>
    intro h
    simp only [fill_blank, fill_append, fill_chars] at h
    have hx : x ≠ .line := by
      rintro rfl
      exact hnumbered.line_ne hu hdigits h
    have hlength := hshort x hx
    obtain ⟨v, hv, hlater, hmem⟩ := ahead_step h (by omega)
    exact ih hv (fun c hc => hdigits.append x.digitFree c (hmem hc)) hlater

/-- A message that is read for its own word is that word: one that is shorter or longer would leave the
two texts apart to their ends. -/
theorem Reread.message_own (hread : Reread ms qs) (hnumbered : Numbered texts)
    (h : texts .message ++ fill texts qs = Blank.message.word ++ fill texts ms) :
    texts .message = Blank.message.word := by
  rcases lt_trichotomy (texts .message).length Blank.message.word.length with hlt | heq | hgt
  · obtain ⟨w, hw, hlater, hmem⟩ := ahead_step (u := []) h.symm (by simpa using hlt)
    have hbegins : texts .message <+: Blank.message.word :=
      List.prefix_of_prefix_length_le ⟨_, h⟩ ⟨_, rfl⟩ hlt.le
    have hfile := hnumbered.file
    refine absurd hlater (hread.stays_behind hnumbered ?_ ?_ hw ?_)
    · rintro (_ | _ | _) hx
      · rw [hfile]
      · exact absurd rfl hx
      · exact hlt.le
    · rintro (_ | _ | _) hx
      · rw [hfile]
        exact Blank.file.digitFree
      · exact absurd rfl hx
      · exact fun c hc => Blank.message.digitFree c (hbegins.subset hc)
    · exact fun c hc => Blank.message.digitFree c (hmem hc)
  · exact (List.append_inj h heq).1
  · obtain ⟨w, hw, hlater⟩ := ahead_step (u := []) h (by simpa using hgt)
    exact absurd hlater.1 (hread.stays_ahead hnumbered hgt hw)

/-- The second reading makes no difference only if all blanks that are spelled get their own words. -/
theorem Reread.own_of_fill_eq (hread : Reread ms qs) (hnumbered : Numbered texts)
    (h : fill texts qs = fill texts ms) : ∀ x, Forms x ms → texts x = x.word := by
  induction hread with
  | nil =>
    intro x hforms
    obtain ⟨inner, hword, -⟩ := x.word_eq
    simp [Forms, hword] at hforms
  | blank y hread ih =>
    simp only [forms_blank]
    simp only [fill_blank, List.append_cancel_left_eq] at h
    exact ih h
  | char hplain hread ih =>
    simp only [forms_char hplain]
    simp only [fill_char, List.cons.injEq, true_and] at h
    exact ih h
  | @spelled y ms qs hread ih =>
    simp only [fill_blank, fill_append, fill_chars] at h
    suffices hown : texts y = y.word by
      intro x hforms
      rw [hown, List.append_cancel_left_eq] at h
      rcases forms_spelled.mp hforms with rfl | hlater
      · exact hown
      · exact ih h x hlater
    cases y with
    | file => exact hnumbered.file
    | line => exact absurd h.symm (hnumbered.line_ne (Blank.word_length_pos _) (Blank.digitFree _))
    | message => exact hread.message_own hnumbered h

end Differing

section Diagnostics

/-- The letters of a word do not come from a number. -/
theorem chars_begin_put (hnumber : IsNumber text) (hword : DigitFree word)
    (h : word.map .char <+: put x text ms) : word.map .char <+: ms := by
  induction word generalizing ms with
  | nil => simp
  | cons c word ih =>
    simp only [DigitFree, List.mem_cons, forall_eq_or_imp] at hword
    cases ms with
    | nil => simp at h
    | cons piece ms =>
      cases piece with
      | char e =>
        simp only [put_char, List.map_cons, List.cons_prefix_cons] at h
        simpa [h.1] using ih hword.2 h.2
      | blank y =>
        by_cases hy : y = x
        · subst hy
          obtain ⟨d, digits, rfl⟩ := List.exists_cons_of_ne_nil hnumber.1
          simp only [put_self, List.map_cons, List.cons_append, List.cons_prefix_cons,
            Piece.char.injEq] at h
          have hdigit := hnumber.2 d List.mem_cons_self
          simp [← h.1, hword.1] at hdigit
        · simp [put_other hy, List.cons_prefix_cons] at h

/-- A number spells no blank, not even with what is around it. -/
theorem not_forms_put (hnumber : IsNumber text) (h : ¬Forms x ms) : ¬Forms x (put y text ms) := by
  induction ms with
  | nil => simpa using h
  | cons piece ms ih =>
    simp only [Forms, List.infix_cons_iff, not_or] at h
    have ih := ih h.2
    cases piece with
    | char c =>
      rw [put_char, Forms, List.infix_cons_iff, not_or]
      refine ⟨fun hbegins => h.1 ?_, ih⟩
      exact chars_begin_put (x := y) hnumber x.digitFree (by simpa using hbegins)
    | blank z =>
      by_cases hz : z = y
      · subst hz
        have hplain : '{' ∉ text := fun hmem => absurd (hnumber.2 _ hmem) (by decide)
        rwa [put_self, forms_inner hplain]
      · rwa [put_other hz, forms_blank]

theorem isNumber_toString (n : Nat) : IsNumber (toString n).toList := by
  have hdigits : (toString n).toList = Nat.toDigits 10 n := by
    rw [Nat.toString_eq_ofList_toDigits, String.toList_ofList]
  rw [hdigits]
  exact ⟨Nat.toDigits_ne_nil, fun c => Nat.isDigit_of_mem_toDigits (by decide) (by decide)⟩

variable (m : Machine) (message : String)

/-- The format with the file name in its blanks. -/
def inserted : List Piece := put .file m.file.toList (pieces m.options.errorFormat.toList)

/-- The texts of the blanks in a diagnostic. -/
def texts : Blank → List Char
  | .file => m.file.toList
  | .line => (toString m.line).toList
  | .message => message.toList

/-- The texts of the blanks in a diagnostic once the file name is in place. -/
def laterTexts : Blank → List Char := Function.update (texts m message) .file Blank.file.word

theorem numbered_laterTexts : Numbered (laterTexts m message) :=
  ⟨rfl, isNumber_toString m.line⟩

theorem fill_inserted :
    fill (laterTexts m message) (inserted m) =
      fill (texts m message) (pieces m.options.errorFormat.toList) := by
  have htexts : Function.update (laterTexts m message) .file m.file.toList = texts m message := by
    funext x
    cases x <;> rfl
  rw [inserted, fill_put, htexts]

theorem diagnostic_eq :
    (m.diagnostic message).toList =
      fill (laterTexts m message) (pieces (written (inserted m))) := by
  have hfile : Text.replaceFrom Blank.file.word m.file.toList 0 m.options.errorFormat.toList =
      written (inserted m) := by
    rw [inserted, ← replaceFrom_written (not_forms_pieces _), written_pieces]
  have hline : Text.replaceFrom Blank.line.word (toString m.line).toList 0 (written (inserted m)) =
      written (put .line (toString m.line).toList (pieces (written (inserted m)))) := by
    rw [← replaceFrom_written (not_forms_pieces _), written_pieces]
  have hnone : ¬Forms .message
      (put .line (toString m.line).toList (pieces (written (inserted m)))) :=
    not_forms_put (isNumber_toString m.line) (not_forms_pieces _)
  have htexts : Function.update (Function.update Blank.word .message message.toList) .line
      (toString m.line).toList = laterTexts m message := by
    funext x
    cases x <;> rfl
  calc (m.diagnostic message).toList
      = Text.replaceFrom Blank.message.word message.toList 0
          (Text.replaceFrom Blank.line.word (toString m.line).toList 0
            (Text.replaceFrom Blank.file.word m.file.toList 0 m.options.errorFormat.toList)) := by
        simp [Machine.diagnostic, Text.replaceAll, Blank.word]
    _ = written (put .message message.toList
          (put .line (toString m.line).toList (pieces (written (inserted m))))) := by
        rw [hfile, hline, replaceFrom_written hnone]
    _ = fill (laterTexts m message) (pieces (written (inserted m))) := by
        rw [written, fill_put, fill_put, htexts]

theorem not_forms_of_not_mem (h : .char '{' ∉ ms) : ¬Forms x ms := by
  intro hforms
  obtain ⟨inner, hword, -⟩ := x.word_eq
  exact h (hforms.subset (by simp [hword]))

/-- With the standard format, a file name without an opening brace stands literally as well. -/
theorem standard_diagnostic (hformat : m.options.errorFormat = Options.standard.errorFormat)
    (hfile : '{' ∉ m.file.toList) :
    m.diagnostic message = m.file ++ ":" ++ toString m.line ++ ": " ++ message := by
  have hpieces : pieces m.options.errorFormat.toList =
      [.blank .file, .char ':', .blank .line, .char ':', .char ' ', .blank .message] := by
    rw [hformat]
    rfl
  have hbrace : .char '{' ∉ inserted m := by
    simpa [inserted, hpieces, put] using hfile
  have hread : fill (laterTexts m message) (pieces (written (inserted m))) =
      fill (laterTexts m message) (inserted m) :=
    (reread (inserted m)).fill_eq fun x hforms => absurd hforms (not_forms_of_not_mem hbrace)
  apply String.toList_inj.mp
  rw [diagnostic_eq, hread, fill_inserted, hpieces]
  simp [texts]

/-- Number and message stand literally in the diagnostic, in the blanks that there are once the file
name is in place. The diagnostic is the format with all blanks filled in at once exactly if the file
name, with what is around it, spells none, other than one for a message that is that blank itself. -/
theorem diagnostic_layout :
    (m.diagnostic message).toList =
        fill (laterTexts m message) (pieces (written (inserted m))) ∧
    ((m.diagnostic message).toList = fill (texts m message) (pieces m.options.errorFormat.toList) ↔
      ¬Forms .line (inserted m) ∧
        (Forms .message (inserted m) → message = "\x7bmessage\x7d")) := by
  have hread := reread (inserted m)
  have hnumbered := numbered_laterTexts m message
  refine ⟨diagnostic_eq m message, ?_⟩
  rw [diagnostic_eq, ← fill_inserted]
  constructor
  · intro h
    have hown := hread.own_of_fill_eq hnumbered h
    constructor
    · intro hline
      have hdiffer : Blank.line.word ++ [] ≠ laterTexts m message .line ++ [] :=
        hnumbered.line_ne Blank.line.word_length_pos Blank.line.digitFree
      exact hdiffer (by rw [hown .line hline])
    · intro hmessage
      have hword : message.toList = Blank.message.word := hown .message hmessage
      apply String.toList_inj.mp
      simp [hword, Blank.word]
  · rintro ⟨hline, hmessage⟩
    apply hread.fill_eq
    rintro (_ | _ | _) hforms
    · rfl
    · exact absurd hforms hline
    · have hword : message.toList = Blank.message.word := by simp [hmessage hforms, Blank.word]
      exact hword

/-- The blank for the line in the name of a file is filled in as if it were one of the format. -/
theorem line_in_file_name :
    ¬∀ (m : Machine) (message : String),
      (m.diagnostic message).toList =
        fill (texts m message) (pieces m.options.errorFormat.toList) := by
  intro hclaim
  have hfile := hclaim
    { Machine.initial .standard (.shelf ⟨[]⟩) with file := "\x7bline\x7d.eve", line := 1 } "x"
  revert hfile
  decide

end Diagnostics

end Layout

end BuildScript
