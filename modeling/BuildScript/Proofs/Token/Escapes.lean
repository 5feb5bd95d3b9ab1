import BuildScript.Eval.Builtin
import BuildScript.Proofs.Token.Quoting

/-!
Strict and lenient reading of escapes. Read from left to right, a text falls into characters for
themselves and pairs that a backslash begins, and perhaps a backslash at its end that has nothing to
pair up with. A backslash begins a pair if an even number of backslashes stands right before it. Both
readers agree on the pairs, although the lenient one goes on with the very character that has no
meaning behind a backslash: that character is no backslash, so it begins no pair.
-/

namespace BuildScript

/-- A pair that has a meaning becomes what it means. All else is kept as written. -/
def Lexeme.Piece.translation (piece : Piece) : List Char :=
  match piece.meaning? with
  | some c => [c]
  | none => piece.source

namespace Text

open Lexeme (Piece sources trailingBackslashes)

/-- How a text reads from left to right. -/
structure Reading where
  pieces : List Piece
  /-- Whether a backslash is left over at the end. -/
  loose : Bool

namespace Reading

def cons (piece : Piece) (reading : Reading) : Reading :=
  { reading with pieces := piece :: reading.pieces }

/-- What is left over behind the pieces. -/
def ending (reading : Reading) : List Char := bif reading.loose then ['\\'] else []

/-- The text that reads so. -/
def source (reading : Reading) : List Char := sources reading.pieces ++ reading.ending

def translation (reading : Reading) : List Char :=
  reading.pieces.flatMap Piece.translation ++ reading.ending

/-- Every backslash begins a pair, or belongs to one, that has a meaning. -/
def Complete (reading : Reading) : Prop :=
  reading.loose = false ∧ ∀ piece ∈ reading.pieces, piece.meaning?.isSome = true

/-- A pair of a backslash and the character begins at the place. -/
def PairsAt (reading : Reading) (place : Nat) (c : Char) : Prop :=
  ∃ front back, reading.pieces = front ++ .pair c :: back ∧ (sources front).length = place

/-- Reads a text. -/
def ofChars : List Char → Reading
  | [] => ⟨[], false⟩
  | c :: rest =>
    if h : c = '\\' then
      match rest with
      | [] => ⟨[], true⟩
      | d :: rest => (ofChars rest).cons (.pair d)
    else (ofChars rest).cons (.plain c h)

end Reading

/-- At the place is a backslash with a character behind it and an even number of backslashes right
before it. -/
def Pairs (text : List Char) (place : Nat) (c : Char) : Prop :=
  text[place]? = some '\\' ∧ trailingBackslashes (text.take place) % 2 = 0 ∧
    text[place + 1]? = some c

/-- No backslash is followed by a character that has a meaning there. -/
def EscapeFree (text : List Char) : Prop :=
  ∀ c, ['\\', c] <:+: text → escapeMeaning? c = none

variable {c d : Char} {text rest value : List Char} {piece : Piece} {reading : Reading} {place : Nat}

namespace Reading

theorem source_cons : (reading.cons piece).source = piece.source ++ reading.source :=
  (congrArg (· ++ reading.ending) (Lexeme.sources_cons piece reading.pieces)).trans
    (List.append_assoc ..)

theorem translation_cons :
    (reading.cons piece).translation = piece.translation ++ reading.translation :=
  List.append_assoc ..

/-- A reading is built from its end, piece by piece. -/
theorem cons_induction {motive : Reading → Prop} (done : motive ⟨[], false⟩)
    (loose : motive ⟨[], true⟩)
    (cons : ∀ piece reading, motive reading → motive (cons piece reading)) (reading : Reading) :
    motive reading := by
  obtain ⟨pieces, left⟩ := reading
  induction pieces with
  | nil =>
    cases left with
    | false => exact done
    | true => exact loose
  | cons piece pieces ih => exact cons piece ⟨pieces, left⟩ ih

theorem source_ofChars (text : List Char) : (ofChars text).source = text := by
  fun_induction ofChars text with
  | case1 => rfl
  | case2 => rfl
  | case3 d rest ih =>
    rw [source_cons, ih]
    rfl
  | case4 c rest hc ih =>
    rw [source_cons, ih]
    rfl

theorem ofChars_plain (hc : c ≠ '\\') (rest : List Char) :
    ofChars (c :: rest) = (ofChars rest).cons (.plain c hc) := by
  rw [ofChars.eq_def]
  exact dif_neg hc

theorem ofChars_pair (c : Char) (rest : List Char) :
    ofChars ('\\' :: c :: rest) = (ofChars rest).cons (.pair c) := rfl

theorem ofChars_source (reading : Reading) : ofChars reading.source = reading := by
  induction reading using cons_induction with
  | done => rfl
  | loose => rfl
  | cons piece reading ih =>
    rw [source_cons]
    cases piece with
    | plain c hc => exact (ofChars_plain hc reading.source).trans (by rw [ih])
    | pair c => exact (ofChars_pair c reading.source).trans (by rw [ih])

/-- Every text reads in one way only. -/
theorem source_eq_iff : reading.source = text ↔ reading = ofChars text :=
  ⟨fun h => h ▸ (ofChars_source reading).symm, fun h => h ▸ source_ofChars text⟩

/-- The first piece of a reading, or a later one, is the pair. -/
theorem pairsAt_cons : (reading.cons piece).PairsAt place c ↔
    (place = 0 ∧ piece = .pair c) ∨
      ∃ later, place = later + piece.source.length ∧ reading.PairsAt later c := by
  constructor
  · rintro ⟨front, back, hpieces, rfl⟩
    rcases List.cons_eq_append_iff.mp hpieces with ⟨rfl, hfirst⟩ | ⟨others, rfl, hothers⟩
    · exact .inl ⟨rfl, (List.cons.inj hfirst).1.symm⟩
    · refine .inr ⟨(sources others).length, ?_, others, back, hothers, rfl⟩
      rw [Lexeme.sources_cons, List.length_append, Nat.add_comm]
  · rintro (⟨rfl, rfl⟩ | ⟨later, rfl, front, back, hpieces, rfl⟩)
    · exact ⟨[], reading.pieces, rfl, rfl⟩
    · refine ⟨piece :: front, back, congrArg (piece :: ·) hpieces, ?_⟩
      rw [Lexeme.sources_cons, List.length_append, Nat.add_comm]

end Reading

section Places

theorem pairs_zero : Pairs text 0 c ↔ ['\\', c] <+: text := by
  cases text with
  | nil => simp [Pairs]
  | cons d rest =>
    cases rest with
    | nil => simp [Pairs]
    | cons d' rest => simp [Pairs, trailingBackslashes, List.cons_prefix_cons, eq_comm]

theorem pairs_plain (hd : d ≠ '\\') : Pairs (d :: rest) (place + 1) c ↔ Pairs rest place c := by
  unfold Pairs
  rw [List.getElem?_cons_succ, List.getElem?_cons_succ, List.take_succ_cons,
    Lexeme.even_trailingBackslashes_plain hd]

theorem pairs_pair : Pairs ('\\' :: d :: rest) (place + 2) c ↔ Pairs rest place c := by
  unfold Pairs
  rw [List.getElem?_cons_succ, List.getElem?_cons_succ, List.getElem?_cons_succ,
    List.getElem?_cons_succ, List.take_succ_cons, List.take_succ_cons,
    Lexeme.even_trailingBackslashes_pair]

/-- A backslash that another one pairs up with begins no pair. -/
theorem not_pairs_one : ¬Pairs ('\\' :: rest) 1 c := by
  rintro ⟨-, heven, -⟩
  cases heven

/-- A pair of the reading begins at a backslash exactly if the backslashes before it pair up. -/
theorem Reading.pairsAt_iff : reading.PairsAt place c ↔ Pairs reading.source place c := by
  induction reading using cons_induction generalizing place with
  | done => simp [PairsAt, Pairs, source, ending, sources]
  | loose => simp [PairsAt, Pairs, source, ending, sources]
  | cons piece reading ih =>
    rw [pairsAt_cons, source_cons]
    simp only [ih]
    cases piece with
    | plain d hd =>
      cases place with
      | zero => simp [Piece.source, pairs_zero, hd.symm]
      | succ place => simp [Piece.source, pairs_plain hd]
    | pair d =>
      match place with
      | 0 => simp [Piece.source, pairs_zero, eq_comm]
      | 1 => simp [Piece.source, not_pairs_one]
      | place + 2 => simp [Piece.source, pairs_pair]

end Places

section Translations

theorem unescapeCharsLenient_plain (hc : c ≠ '\\') (rest : List Char) :
    unescapeCharsLenient (c :: rest) = c :: unescapeCharsLenient rest :=
  unescapeCharsLenient.eq_3 c rest fun _ _ hbackslash _ => hc hbackslash

/-- A character without meaning behind a backslash begins no pair, so both are kept. -/
theorem unescapeCharsLenient_pair (c : Char) (rest : List Char) :
    unescapeCharsLenient ('\\' :: c :: rest) =
      (Piece.pair c).translation ++ unescapeCharsLenient rest := by
  have hpair := unescapeCharsLenient.eq_2 c rest
  cases hmeaning : escapeMeaning? c with
  | some meaning =>
    simp [hpair, hmeaning, Piece.translation, Piece.meaning?]
  | none =>
    have hc : c ≠ '\\' := by
      rintro rfl
      cases hmeaning
    simp [hpair, hmeaning, Piece.translation, Piece.meaning?, Piece.source,
      unescapeCharsLenient_plain hc]

/-- The lenient reader translates the reading. -/
theorem unescapeCharsLenient_source (reading : Reading) :
    unescapeCharsLenient reading.source = reading.translation := by
  induction reading using Reading.cons_induction with
  | done => rfl
  | loose => rfl
  | cons piece reading ih =>
    rw [Reading.source_cons, Reading.translation_cons, ← ih]
    cases piece with
    | plain c hc => exact unescapeCharsLenient_plain hc reading.source
    | pair c => exact unescapeCharsLenient_pair c reading.source

/-- The strict reader needs a meaning for the first piece, and goes on behind it. -/
theorem unescapeChars_piece_eq_ok_iff :
    unescapeChars (piece.source ++ rest) = .ok value ↔ piece.meaning?.isSome = true ∧
      ∃ others, unescapeChars rest = .ok others ∧ piece.translation ++ others = value := by
  cases piece with
  | plain c hc =>
    have hplain : unescapeChars ((Piece.plain c hc).source ++ rest) = _ :=
      Lexeme.unescapeChars_plain hc rest
    rw [hplain]
    cases unescapeChars rest <;> simp [Except.map, Piece.translation, Piece.meaning?]
  | pair c =>
    have hpair : unescapeChars ((Piece.pair c).source ++ rest) = _ :=
      Lexeme.unescapeChars_pair c rest
    rw [hpair]
    cases hmeaning : escapeMeaning? c with
    | none => simp [Piece.meaning?, hmeaning]
    | some meaning =>
      cases unescapeChars rest <;> simp [Except.map, Piece.translation, Piece.meaning?, hmeaning]

theorem Reading.complete_cons :
    (reading.cons piece).Complete ↔ piece.meaning?.isSome = true ∧ reading.Complete := by
  simp only [Complete, cons, List.forall_mem_cons]
  exact and_left_comm

/-- The strict reader translates the complete readings, and fails on the others. -/
theorem unescapeChars_source_eq_ok_iff :
    unescapeChars reading.source = .ok value ↔ reading.Complete ∧ reading.translation = value := by
  induction reading using Reading.cons_induction generalizing value with
  | done => simp [Reading.source, Reading.ending, Reading.Complete, Reading.translation, sources,
      unescapeChars]
  | loose => simp [Reading.source, Reading.ending, Reading.Complete, sources, unescapeChars]
  | cons piece reading ih =>
    rw [Reading.source_cons, unescapeChars_piece_eq_ok_iff, Reading.complete_cons,
      Reading.translation_cons]
    simp only [ih]
    constructor
    · rintro ⟨hpiece, _, ⟨hcomplete, rfl⟩, rfl⟩
      exact ⟨⟨hpiece, hcomplete⟩, rfl⟩
    · rintro ⟨⟨hpiece, hcomplete⟩, rfl⟩
      exact ⟨hpiece, _, ⟨hcomplete, rfl⟩, rfl⟩

end Translations

section Unchanged

/-- A character in front makes no difference, if it is no backslash or nothing is behind it. -/
theorem escapeFree_cons (h : ∀ d others, c = '\\' → rest = d :: others → False) :
    EscapeFree (c :: rest) ↔ EscapeFree rest := by
  unfold EscapeFree
  constructor
  · intro hfree d hinfix
    exact hfree d (List.infix_cons_iff.mpr (.inr hinfix))
  · intro hfree d hinfix
    rcases List.infix_cons_iff.mp hinfix with hfront | hinfix
    · obtain ⟨rfl, others, rfl⟩ := List.cons_prefix_cons.mp hfront
      exact (h d others rfl rfl).elim
    · exact hfree d hinfix

theorem escapeFree_backslash :
    EscapeFree ('\\' :: c :: rest) ↔ escapeMeaning? c = none ∧ EscapeFree (c :: rest) := by
  simp [EscapeFree, List.infix_cons_iff (a := '\\'), List.cons_prefix_cons, or_imp, forall_and]

theorem length_unescapeCharsLenient_le (text : List Char) :
    (unescapeCharsLenient text).length ≤ text.length := by
  fun_induction unescapeCharsLenient text with
  | case1 => exact Nat.le_refl _
  | case2 c rest _ ih => simpa using ih
  | case3 c rest meaning _ ih =>
    simp only [List.length_cons]
    omega
  | case4 c rest _ ih => simpa using ih

/-- A text is kept exactly if it has nothing to translate: each pair that is translated makes it
shorter. -/
theorem unescapeCharsLenient_eq_self_iff (text : List Char) :
    unescapeCharsLenient text = text ↔ EscapeFree text := by
  fun_induction unescapeCharsLenient text with
  | case1 => simp [EscapeFree]
  | case2 c rest hnone ih =>
    rw [escapeFree_backslash]
    simp [hnone, ih]
  | case3 c rest meaning hmeaning ih =>
    have hshort := length_unescapeCharsLenient_le rest
    refine iff_of_false (fun heq => ?_) (fun hfree => ?_)
    · have hlength := congrArg List.length heq
      simp only [List.length_cons] at hlength
      omega
    · have hnone := (escapeFree_backslash.mp hfree).1
      rw [hmeaning] at hnone
      cases hnone
  | case4 c rest hpair ih =>
    rw [escapeFree_cons hpair]
    simpa using ih

end Unchanged

section Texts

theorem unescapeCharsLenient_of_unescapeChars (h : unescapeChars text = .ok value) :
    unescapeCharsLenient text = value := by
  rw [← Reading.source_ofChars text] at h ⊢
  rw [unescapeCharsLenient_source]
  exact (unescapeChars_source_eq_ok_iff.mp h).2

theorem unescape_eq_ok_iff {text value : String} :
    unescape text = .ok value ↔ unescapeChars text.toList = .ok value.toList := by
  unfold unescape
  cases unescapeChars text.toList with
  | error c => simp [Except.map]
  | ok chars =>
    simp only [Except.map, Except.ok.injEq]
    exact ⟨fun h => h ▸ String.toList_ofList.symm, fun h => h ▸ String.ofList_toList⟩

theorem unescapeLenient_eq_iff {text value : String} :
    unescapeLenient text = value ↔ unescapeCharsLenient text.toList = value.toList :=
  ⟨fun h => h ▸ String.toList_ofList.symm,
    fun h => (congrArg String.ofList h).trans String.ofList_toList⟩

/-- Text from outside a script prints what the literal with this text between its quotes prints. -/
theorem printedText_quoted {body : List Char} {value : String}
    (h : Lexeme.readQuoted (body ++ ['"']) = .ok (.quoted value, body.length + 1))
    (args : List Value) :
    Eval.printedText (.macroText (String.ofList body) :: args) =
      Eval.printedText (.string value :: args) := by
  have hvalue : unescapeChars body = .ok value.toList := by
    unfold Lexeme.readQuoted at h
    split at h
    · cases h
    · split at h
      · cases h
      · rename_i n hlength chars hchars
        cases h
        rwa [List.take_left, ← String.toList_ofList (l := chars)] at hchars
  have hlenient := unescapeCharsLenient_of_unescapeChars hvalue
  have hprinted : unescapeLenient (String.ofList body) = value :=
    unescapeLenient_eq_iff.mpr (by rw [String.toList_ofList, hlenient])
  exact congrArg Except.ok hprinted

/-- A text reads in one way only, where the pairs begin at the backslashes that an even number of
backslashes stands right before. The lenient reader translates the pairs of this reading that have a
meaning and keeps all else. The strict reader succeeds if they all have one and no backslash is left
over, and then both give the same. So the lenient reader changes nothing exactly if no backslash is
followed by a character that has a meaning there. -/
theorem lenient_unescaping (text : String) :
    (∀ value, unescape text = .ok value → unescapeLenient text = value) ∧
      (∃ reading : Reading, (∀ other : Reading, other.source = text.toList ↔ other = reading) ∧
        (∀ place c, reading.PairsAt place c ↔ Pairs text.toList place c) ∧
        unescapeLenient text = String.ofList reading.translation ∧
        ∀ value, unescape text = .ok value ↔ reading.Complete ∧ unescapeLenient text = value) ∧
      (unescapeLenient text = text ↔ EscapeFree text.toList) := by
  have hsource := Reading.source_ofChars text.toList
  have hlenient : unescapeCharsLenient text.toList = (Reading.ofChars text.toList).translation := by
    rw [← unescapeCharsLenient_source, hsource]
  refine ⟨fun value hvalue => ?_, ⟨Reading.ofChars text.toList, fun other => Reading.source_eq_iff,
    fun place c => ?_, congrArg String.ofList hlenient, fun value => ?_⟩, ?_⟩
  · rw [unescape_eq_ok_iff] at hvalue
    exact unescapeLenient_eq_iff.mpr (unescapeCharsLenient_of_unescapeChars hvalue)
  · rw [Reading.pairsAt_iff, hsource]
  · rw [unescape_eq_ok_iff, unescapeLenient_eq_iff, hlenient, ← unescapeChars_source_eq_ok_iff,
      hsource]
  · rw [unescapeLenient_eq_iff, unescapeCharsLenient_eq_self_iff]

/-- Of three backslashes in a row, the last one makes the character behind it a line break. -/
theorem threeBackslashes_agree :
    unescape "\\\\\\n" = .ok "\\\n" ∧ unescapeLenient "\\\\\\n" = "\\\n" := by
  have hstrict : unescape "\\\\\\n" = .ok "\\\n" := unescape_eq_ok_iff.mpr rfl
  exact ⟨hstrict, (lenient_unescaping _).1 _ hstrict⟩

/-- The pair without meaning is kept, and the backslash at the end. -/
example : unescapeCharsLenient ['\\', '\\', 'q', '\\', 'q', '\\'] =
    ['\\', 'q', '\\', 'q', '\\'] := rfl

end Texts

end Text

end BuildScript
