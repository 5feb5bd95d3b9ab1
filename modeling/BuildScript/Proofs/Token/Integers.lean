import BuildScript.Proofs.Source.Lexing
import BuildScript.Proofs.Token.Scanning

/-!
Integers in a line. Where the lexer gets to a digit it gets to a minus as well, and what follows an
integer is lexed in the same way whichever integer it is. So all integers are lexed alike at a place,
but for the lowest: it is one token with its minus, and only if the token in front of the minus says that
this is a sign.
-/

namespace BuildScript

namespace Lexeme

variable {c d : Char} {cs more front back : List Char} {kind : LexemeKind} {glues : Char → Bool}
  {lexemes : List Lexeme} {spaced spaced' : Bool}

/-- What a decimal integer begins with. -/
def BeginsInteger (c : Char) : Prop := c.isDigit = true ∨ c = '-'

/-- A lexeme that ends in front of a digit ends in front of any other and of a minus. -/
theorem Spells.glues_integer (h : Spells kind c cs glues) (hzero : glues '0' = false)
    (hd : BeginsInteger d) : glues d = false := by
  cases h with
  | quoted | ellipsis => rfl
  | magnitude | single | fraction | word | dot => cases hzero
  | twoDots =>
    rcases hd with hd | rfl
    · exact beq_false_of_class (p := Char.isDigit) rfl hd
    · rfl
  | symbol hread =>
    have hne {e : Char} (he : e.isDigit = false) (hminus : '-' ≠ e) : (d == e) = false := by
      rcases hd with hd | rfl
      · exact beq_false_of_class (p := Char.isDigit) he hd
      · exact beq_eq_false_iff_ne.mpr hminus
    unfold symbolGlues
    split <;> simp [hne]

/-- Where the scan gets to a digit it gets to whatever else an integer begins with. -/
theorem Passes.integer (h : Passes spaced (front ++ '0' :: back) lexemes spaced' ('0' :: back))
    (hd : BeginsInteger d) (more : List Char) :
    Passes spaced (front ++ d :: more) lexemes spaced' (d :: more) := by
  generalize htext : front ++ '0' :: back = text at h
  generalize hplace : '0' :: back = place at h htext
  induction h generalizing front with
  | here =>
    subst hplace
    obtain rfl : front = [] := by simpa using htext
    exact .here
  | @gap _ c rest _ _ _ hgap hrest ih =>
    subst hplace
    cases front with
    | nil =>
      obtain ⟨rfl, -⟩ := List.cons.inj htext
      exact absurd hgap (by decide)
    | cons first front =>
      obtain ⟨rfl, rfl⟩ : first = c ∧ front ++ '0' :: back = rest := List.cons.inj htext
      exact .gap hgap (ih rfl rfl)
  | @comment _ _ rest _ _ _ _ _ hrest =>
    have hstop := List.head?_dropWhile_not (· != '\n') rest
    rw [← hrest.behind_comment.2, ← hplace] at hstop
    simp at hstop
  | @lexeme spaced c rest kind n lexemes spaced' _ hgap hcomment hread hrest ih =>
    subst hplace
    obtain ⟨before, hbefore, -⟩ := hrest.exists_before
    cases front with
    | nil =>
      obtain ⟨rfl, rfl⟩ := List.cons.inj htext
      have hlength := congrArg List.length hbefore
      simp only [List.length_drop, List.length_append, List.length_cons] at hlength
      omega
    | cons first front =>
      obtain ⟨rfl, rfl⟩ : first = c ∧ front ++ '0' :: back = rest := List.cons.inj htext
      obtain ⟨cs, after, glues, hsplit, rfl, hspells, hglues⟩ := spells_of_lexeme hcomment hread
      rw [hsplit, List.drop_left] at hbefore
      subst hbefore
      obtain rfl : front = cs ++ before := by
        rw [← List.append_assoc] at hsplit
        exact List.append_cancel_right hsplit
      have hends : ∀ e ∈ (before ++ d :: more).head?, glues e = false := by
        cases before with
        | nil =>
          rintro _ ⟨⟩
          exact hspells.glues_integer (hglues '0' rfl) hd
        | cons e before => exact hglues
      have hread' := hspells.read_eq hends
      have hcomment' := hspells.not_comment hends
      have hrest' : Passes false ((cs ++ (before ++ d :: more)).drop cs.length) lexemes spaced'
          (d :: more) := by
        rw [List.drop_left]
        exact ih rfl (by rw [List.append_assoc, List.drop_left])
      have hpasses : Passes spaced (first :: (cs ++ (before ++ d :: more))) _ spaced' (d :: more) :=
        .lexeme hgap hcomment' hread' hrest'
      rw [List.take_left] at hpasses
      rw [hsplit, List.take_left, List.cons_append, List.append_assoc]
      exact hpasses

variable {n : Nat}

/-- The text goes on with neither a digit nor a point, so a number in front of it ends there. -/
def EndsNumber (text : List Char) : Prop := ∀ c ∈ text.head?, c.isDigit = false ∧ c ≠ '.'

theorem scan_magnitude (hn : n ≤ largestMagnitude) (hback : EndsNumber back) (spaced : Bool) :
    scan spaced ((toString n).toList ++ back) =
      (scan false back).map (⟨.magnitude n, toString n, spaced⟩ :: ·) := by
  obtain ⟨c, cs, htext, -, hspells⟩ := spells_nat hn
  have hfits : Fits ⟨.magnitude n, toString n, spaced⟩ back.head? :=
    ⟨c, cs, _, htext, hspells, fun d hd => by simp [hback d hd]⟩
  exact hfits.scan_eq spaced

theorem scan_negative (hn : n ≤ largestMagnitude) (hback : EndsNumber back) (spaced : Bool) :
    scan spaced ('-' :: ((toString n).toList ++ back)) = (scan false back).map
      (⟨.operator .subtract, "-", spaced⟩ :: ⟨.magnitude n, toString n, false⟩ :: ·) := by
  obtain ⟨c, cs, htext, hc, -⟩ := spells_nat hn
  have hminus : "-".toList = ['-'] := by simp
  have hfits : Fits ⟨.operator .subtract, "-", spaced⟩ ((toString n).toList ++ back).head? := by
    refine ⟨'-', [], _, hminus, .symbol rfl, ?_⟩
    rw [htext]
    rintro _ ⟨⟩
    exact beq_false_of_class (p := Char.isDigit) rfl hc
  have hscan := hfits.scan_eq spaced
  rw [hminus, scan_magnitude hn hback false] at hscan
  refine hscan.trans ?_
  cases scan false back <;> rfl

end Lexeme

namespace Lexed

open Lexeme (scan EndsNumber)

variable {done tokens base base' top : List Token} {lexemes rest : List Lexeme} {lexed : Lexed}
  {e : SyntaxError}

/-- Lexemes behind others that form tokens find these in front of them. -/
theorem Formed.ofLexemes_append (h : Formed done lexemes ⟨tokens, false⟩) (rest : List Lexeme) :
    ofLexemes done (lexemes ++ rest) = ofLexemes tokens.reverse rest := by
  generalize hlexed : (⟨tokens, false⟩ : Lexed) = lexed at h
  induction h with
  | done =>
    cases hlexed
    rw [List.nil_append, List.reverse_reverse]
  | continued => cases hlexed
  | single hkind _ ih => rw [List.cons_append, ofLexemes_single hkind, ih hlexed]
  | ownMember _ ih | member _ ih =>
    rw [List.cons_append, List.cons_append, ofLexemes]
    exact ih hlexed
  | negative hvalue hsign _ ih =>
    rw [List.cons_append, ofLexemes]
    unfold pushMagnitude
    rw [if_neg hvalue]
    dsimp only
    rw [if_pos hsign]
    exact ih hlexed

/-- The tokens, last first, end with a literal: no minus behind it is a sign. -/
def EndsLiteral (tokens : List Token) : Prop :=
  ∃ literal value before, tokens = literal :: before ∧ literal.kind = .literal value

/-- The same comes of lexemes behind one list of tokens and behind another. -/
def Alike (base base' : List Token) (read read' : Except SyntaxError Lexed) : Prop :=
  (∃ e, read = .error e ∧ read' = .error e) ∨ ∃ tokens continuation,
    read = .ok ⟨base.reverse ++ tokens, continuation⟩ ∧
      read' = .ok ⟨base'.reverse ++ tokens, continuation⟩

theorem pushMagnitude_alike (hbase : EndsLiteral base) (hbase' : EndsLiteral base') (top : List Token)
    (value : Nat) (text : String) (spaced : Bool) :
    (∃ e, pushMagnitude (top ++ base) value text spaced = .error e ∧
        pushMagnitude (top ++ base') value text spaced = .error e) ∨
      ∃ top', pushMagnitude (top ++ base) value text spaced = .ok (top' ++ base) ∧
        pushMagnitude (top ++ base') value text spaced = .ok (top' ++ base') := by
  unfold pushMagnitude
  by_cases hvalue : value < Lexeme.largestMagnitude
  · simp only [if_pos hvalue]
    exact .inr ⟨⟨.literal (.int (Int32.ofNat value)), text, spaced⟩ :: top, rfl, rfl⟩
  simp only [if_neg hvalue]
  obtain ⟨literal, literalValue, before, rfl, hliteral⟩ := hbase
  obtain ⟨literal', literalValue', before', rfl, hliteral'⟩ := hbase'
  have hsign {literal : Token} {value : Literal} (h : literal.kind = .literal value) :
      signAfter (some literal) = false := by rw [signAfter, h]
  cases top with
  | nil =>
    obtain ⟨kind, literalText, literalSpaced⟩ := literal
    obtain ⟨kind', literalText', literalSpaced'⟩ := literal'
    cases hliteral
    cases hliteral'
    exact .inl ⟨_, rfl, rfl⟩
  | cons token top =>
    by_cases hminus : token.kind = .operator .subtract
    · obtain ⟨kind, minus, minusSpaced⟩ := token
      cases hminus
      cases top with
      | nil =>
        refine .inl ⟨.integerOutOfRange text, ?_, ?_⟩
        · exact if_neg (ne_true_of_eq_false (hsign hliteral))
        · exact if_neg (ne_true_of_eq_false (hsign hliteral'))
      | cons second top =>
        by_cases hsecond : signAfter (some second) = true
        · exact .inr ⟨⟨.literal (.int Int32.minValue), "-" ++ text, minusSpaced⟩ :: second :: top,
            if_pos hsecond, if_pos hsecond⟩
        · exact .inl ⟨.integerOutOfRange text, if_neg hsecond, if_neg hsecond⟩
    · refine .inl ⟨.integerOutOfRange text, ?_, ?_⟩
      · split
        · rename_i heq
          cases (List.cons.inj heq).1
          exact absurd rfl hminus
        · rfl
      · split
        · rename_i heq
          cases (List.cons.inj heq).1
          exact absurd rfl hminus
        · rfl

theorem ofLexemes_alike (hbase : EndsLiteral base) (hbase' : EndsLiteral base') (top : List Token)
    (rest : List Lexeme) :
    Alike base base' (ofLexemes (top ++ base) rest) (ofLexemes (top ++ base') rest) := by
  generalize hdone : top ++ base = done
  fun_induction ofLexemes done rest generalizing top with
  | case1 done =>
    subst hdone
    rw [ofLexemes]
    exact .inr ⟨top.reverse, false, by simp, by simp⟩
  | case2 done text spaced rest hrest =>
    subst hdone
    rw [ofLexemes, if_pos hrest]
    exact .inr ⟨top.reverse, true, by simp, by simp⟩
  | case3 done text spaced rest hrest =>
    subst hdone
    rw [ofLexemes, if_neg hrest]
    exact .inl ⟨_, rfl, rfl⟩
  | case4 done text spaced rest =>
    rw [ofLexemes]
    exact .inl ⟨_, rfl, rfl⟩
  | case5 done point word rest ih =>
    subst hdone
    rw [ofLexemes]
    exact ih (_ :: top) rfl
  | case6 done point spaced word rest hspaced ih =>
    subst hdone
    rw [ofLexemes, if_neg hspaced]
    exact ih (_ :: _ :: top) rfl
  | case7 done text spaced rest hword =>
    rw [ofLexemes]
    · exact .inl ⟨_, rfl, rfl⟩
    · exact hword
  | case8 done value text spaced rest e hpush =>
    subst hdone
    rw [ofLexemes]
    rcases pushMagnitude_alike hbase hbase' top value text spaced with
      ⟨e', hread, hread'⟩ | ⟨top', hread, -⟩
    · cases hpush.symm.trans hread
      rw [hread']
      exact .inl ⟨_, rfl, rfl⟩
    · cases hpush.symm.trans hread
  | case9 done value text spaced rest done' hpush ih =>
    subst hdone
    rw [ofLexemes]
    rcases pushMagnitude_alike hbase hbase' top value text spaced with
      ⟨e', hread, -⟩ | ⟨top', hread, hread'⟩
    · cases hpush.symm.trans hread
    · cases hpush.symm.trans hread
      rw [hread']
      exact ih top' rfl
  | case10 done text spaced rest ih | case11 done value text spaced rest ih
  | case12 done value text spaced rest ih | case13 done op text spaced rest ih
  | case14 done separator text spaced rest ih =>
    subst hdone
    rw [ofLexemes]
    exact ih (_ :: top) rfl

/-- The line with the tokens in front. -/
def behind (tokens : List Token) (lexed : Lexed) : Lexed := ⟨tokens ++ lexed.tokens, lexed.continuation⟩

/-- What lexemes form behind an integer. -/
def formedRest (lexemes : List Lexeme) : Except SyntaxError Lexed :=
  (ofLexemes [⟨.literal (.int 0), "0", false⟩] lexemes).map fun lexed =>
    { lexed with tokens := lexed.tokens.tail }

/-- What a text is lexed as behind an integer. -/
def ofRest (text : String) : Except SyntaxError Lexed :=
  (scan false text.toList).bind formedRest

/-- What comes of lexemes behind a literal does not depend on what is in front of them. -/
theorem ofLexemes_rest (hbase : EndsLiteral base) (rest : List Lexeme) :
    ofLexemes base rest = (formedRest rest).map (behind base.reverse) := by
  let zero : Token := ⟨.literal (.int 0), "0", false⟩
  have hzero : EndsLiteral [zero] := ⟨zero, _, [], rfl, rfl⟩
  have halike := ofLexemes_alike hzero hbase [] rest
  rw [List.nil_append, List.nil_append] at halike
  unfold formedRest
  rcases halike with ⟨e, hread, hread'⟩ | ⟨tokens, continuation, hread, hread'⟩
  · rw [hread, hread']
    rfl
  · rw [hread, hread']
    rfl

/-- The tokens of the decimal text of an integer. Only the lowest is one token with its minus. -/
def integer (spaced : Bool) (n : Int32) : List Token :=
  if 0 ≤ n.toInt ∨ n = Int32.minValue then [⟨.literal (.int n), toString n, spaced⟩]
  else [⟨.operator .subtract, "-", spaced⟩, ⟨.literal (.int (-n)), toString (-n), false⟩]

/-- Between the two texts is a place for a number: the lexer gets to a digit there, with these tokens in
front of it, and the digits end there. -/
structure Place (front back : String) (done : List Token) (spaced : Bool) : Prop where
  reached : ∃ lexemes, ofLexemes [] lexemes = .ok ⟨done, false⟩ ∧
    Lexeme.Passes true (front.toList ++ '0' :: back.toList) lexemes spaced ('0' :: back.toList)
  ends : EndsNumber back.toList

variable {front back : String} {spaced : Bool} {n : Nat}

/-- From the place on the line is lexed as by itself, behind the tokens in front. -/
theorem Place.ofChars_eq (h : Place front back done spaced) {c : Char} (hc : Lexeme.BeginsInteger c)
    (more : List Char) : ofChars (front.toList ++ c :: more) =
      (scan spaced (c :: more)).bind (ofLexemes done.reverse) := by
  obtain ⟨lexemes, hdone, hpasses⟩ := h.reached
  have hformed := formed_iff.mpr hdone
  rw [ofChars, (hpasses.integer hc more).scan_eq]
  cases scan spaced (c :: more) with
  | error e => rfl
  | ok rest => exact hformed.ofLexemes_append rest

theorem Place.ofLine_magnitude (h : Place front back done spaced) (hn : n ≤ Lexeme.largestMagnitude) :
    ofLine (front ++ toString n ++ back) = (scan false back.toList).bind fun rest =>
      ofLexemes done.reverse (⟨.magnitude n, toString n, spaced⟩ :: rest) := by
  obtain ⟨c, cs, htext, hc, -⟩ := Lexeme.spells_nat hn
  have hscan := Lexeme.scan_magnitude hn h.ends spaced
  rw [htext] at hscan
  rw [ofLine, String.toList_append, String.toList_append, htext, List.append_assoc, List.cons_append,
    h.ofChars_eq (.inl hc), ← List.cons_append, hscan]
  cases scan false back.toList <;> rfl

theorem Place.ofLine_negative (h : Place front back done spaced) (hn : n ≤ Lexeme.largestMagnitude) :
    ofLine (front ++ ("-" ++ toString n) ++ back) = (scan false back.toList).bind fun rest =>
      ofLexemes (⟨.operator .subtract, "-", spaced⟩ :: done.reverse)
        (⟨.magnitude n, toString n, false⟩ :: rest) := by
  have hminus : "-".toList = ['-'] := by simp
  rw [ofLine, String.toList_append, String.toList_append, String.toList_append, hminus,
    List.append_assoc, List.append_assoc, List.singleton_append, h.ofChars_eq (.inr rfl),
    Lexeme.scan_negative hn h.ends]
  cases scan false back.toList with
  | error e => rfl
  | ok rest =>
    rw [Except.map, Except.bind, Except.bind]
    exact ofLexemes_single rfl

/-- An integer is written as its magnitude, if it is negative with a minus in front. -/
theorem exists_magnitude (n : Int32) :
    (0 ≤ n.toInt ∧ ∃ m < Lexeme.largestMagnitude, n = Int32.ofNat m ∧ toString n = toString m) ∨
      (n = Int32.minValue ∧ toString n = "-" ++ toString Lexeme.largestMagnitude) ∨
      (¬(0 ≤ n.toInt ∨ n = Int32.minValue) ∧ ∃ m < Lexeme.largestMagnitude, -n = Int32.ofNat m ∧
        toString n = "-" ++ toString m ∧ toString (-n) = toString m) := by
  have hlow := n.le_toInt
  have hhigh := n.toInt_lt
  have hofNat {i : Int32} {m : Nat} (h : i.toInt = m) : i = Int32.ofNat m ∧ toString i = toString m := by
    constructor
    · rw [← Int32.ofInt_eq_ofNat, ← h, Int32.ofInt_toInt]
    · exact congrArg toString h
  by_cases hsign : 0 ≤ n.toInt
  · obtain ⟨m, hm⟩ := Int.eq_ofNat_of_zero_le hsign
    refine .inl ⟨hsign, m, ?_, hofNat hm⟩
    unfold Lexeme.largestMagnitude
    omega
  by_cases hmin : n = Int32.minValue
  · subst hmin
    exact .inr (.inl ⟨rfl, rfl⟩)
  · have hne : n.toInt ≠ -2147483648 := fun h => hmin (Int32.toInt_inj.mp h)
    obtain ⟨m, hm⟩ := Int.eq_negSucc_of_lt_zero (Int.not_le.mp hsign)
    have hbound : m + 1 < Lexeme.largestMagnitude := by
      unfold Lexeme.largestMagnitude
      omega
    have hneg : (-n).toInt = (m + 1 : Nat) := by
      rw [Int32.toInt_neg, hm, Int.bmod_eq_of_le (by omega) (by omega)]
      rfl
    refine .inr (.inr ⟨not_or.mpr ⟨hsign, hmin⟩, m + 1, hbound, (hofNat hneg).1, ?_, (hofNat hneg).2⟩)
    exact congrArg toString hm

theorem ofLexemes_magnitude (hn : n < Lexeme.largestMagnitude) (done : List Token) (text : String)
    (spaced : Bool) (rest : List Lexeme) : ofLexemes done (⟨.magnitude n, text, spaced⟩ :: rest) =
      ofLexemes (⟨.literal (.int (Int32.ofNat n)), text, spaced⟩ :: done) rest :=
  ofLexemes_single (if_pos hn)

/-- A magnitude that only the lowest integer has is part of it behind a minus that is a sign. -/
theorem ofLexemes_largest {before : List Token} {minus : Token}
    (hminus : minus.kind = .operator .subtract) (hsign : signAfter before.getLast? = true)
    (text : String) (spaced : Bool) (rest : List Lexeme) :
    ofLexemes (minus :: before.reverse) (⟨.magnitude Lexeme.largestMagnitude, text, spaced⟩ :: rest) =
      ofLexemes (⟨.literal (.int Int32.minValue), "-" ++ text, minus.spaced⟩ :: before.reverse) rest := by
  obtain ⟨kind, minusText, minusSpaced⟩ := minus
  cases hminus
  rw [ofLexemes, pushMagnitude, if_neg (Nat.lt_irrefl _)]
  dsimp only
  rw [List.head?_reverse, if_pos hsign]

/-- Everywhere else it is out of range. -/
theorem ofLexemes_outOfRange (hdone : ∀ before minus, done = before ++ [minus] →
      minus.kind = .operator .subtract → signAfter before.getLast? = false)
    (text : String) (spaced : Bool) (rest : List Lexeme) :
    ofLexemes done.reverse (⟨.magnitude Lexeme.largestMagnitude, text, spaced⟩ :: rest) =
      .error (.integerOutOfRange text) := by
  rw [ofLexemes]
  have hpush : pushMagnitude done.reverse Lexeme.largestMagnitude text spaced =
      .error (.integerOutOfRange text) := by
    unfold pushMagnitude
    rw [if_neg (Nat.lt_irrefl _)]
    split
    · rename_i minus minusSpaced before hreverse
      have hsplit : done = before.reverse ++ [⟨.operator .subtract, minus, minusSpaced⟩] := by
        rw [← List.reverse_cons, ← hreverse, List.reverse_reverse]
      have hsign := hdone _ _ hsplit rfl
      rw [List.getLast?_reverse] at hsign
      exact if_neg (ne_true_of_eq_false hsign)
    · rfl
  rw [hpush]

section Places

variable (h : Place front back done spaced)

/-- What is lexed behind a literal. -/
theorem bind_eq_rest {read : List Lexeme → Except SyntaxError Lexed} (hbase : EndsLiteral base)
    (htokens : base.reverse = tokens) (hread : ∀ rest, read rest = ofLexemes base rest) :
    (scan false back.toList).bind read = (ofRest back).map (behind tokens) := by
  unfold ofRest
  cases scan false back.toList with
  | error e => rfl
  | ok rest =>
    subst htokens
    exact (hread rest).trans (ofLexemes_rest hbase rest)

include h

/-- All integers are lexed alike at a place, but for the lowest where no sign may be. -/
theorem Place.ofLine_integer {n : Int32} (hmin : n = Int32.minValue → signAfter done.getLast? = true) :
    ofLine (front ++ toString n ++ back) = (ofRest back).map (behind (done ++ integer spaced n)) := by
  rcases exists_magnitude n with
    ⟨hsign, m, hm, hn, htext⟩ | ⟨hn, htext⟩ | ⟨hneg, m, hm, hn, htext, htext'⟩
  · let literal : Token := ⟨.literal (.int n), toString n, spaced⟩
    have hbase : EndsLiteral (literal :: done.reverse) := ⟨literal, _, _, rfl, rfl⟩
    rw [integer, if_pos (.inl hsign), htext, h.ofLine_magnitude (Nat.le_of_lt hm)]
    refine bind_eq_rest hbase (by simp [literal, htext]) fun rest => ?_
    rw [ofLexemes_magnitude hm, ← hn, ← htext]
  · subst hn
    let literal : Token := ⟨.literal (.int Int32.minValue), toString Int32.minValue, spaced⟩
    have hbase : EndsLiteral (literal :: done.reverse) := ⟨literal, _, _, rfl, rfl⟩
    rw [integer, if_pos (.inr rfl), htext, h.ofLine_negative (Nat.le_refl _)]
    refine bind_eq_rest hbase (by simp [literal, htext]) fun rest => ?_
    simp only [literal, htext]
    exact ofLexemes_largest rfl (hmin rfl) _ _ _
  · let literal : Token := ⟨.literal (.int (-n)), toString (-n), false⟩
    let minus : Token := ⟨.operator .subtract, "-", spaced⟩
    have hbase : EndsLiteral (literal :: minus :: done.reverse) := ⟨literal, _, _, rfl, rfl⟩
    rw [integer, if_neg hneg, htext, h.ofLine_negative (Nat.le_of_lt hm)]
    refine bind_eq_rest hbase (by simp [literal, minus]) fun rest => ?_
    rw [ofLexemes_magnitude hm, ← hn, ← htext']

/-- The magnitude of the lowest integer joins the minus in front of it, if that is a sign. -/
theorem Place.ofLine_largest {before : List Token} {minus : Token} (hdone : done = before ++ [minus])
    (hminus : minus.kind = .operator .subtract) (hsign : signAfter before.getLast? = true) :
    ofLine (front ++ "2147483648" ++ back) =
      (ofRest back).map (behind (before ++ integer minus.spaced Int32.minValue)) := by
  let literal : Token := ⟨.literal (.int Int32.minValue), toString Int32.minValue, minus.spaced⟩
  have hbase : EndsLiteral (literal :: before.reverse) := ⟨literal, _, _, rfl, rfl⟩
  have hline := h.ofLine_magnitude (Nat.le_refl Lexeme.largestMagnitude)
  rw [integer, if_pos (.inr rfl)]
  refine Eq.trans hline (bind_eq_rest hbase (by simp [literal]) fun rest => ?_)
  rw [hdone, List.reverse_append]
  exact ofLexemes_largest hminus hsign _ _ _

/-- Everywhere else the line is in error, if there is no other error that is found first. -/
theorem Place.ofLine_outOfRange (hdone : ∀ before minus, done = before ++ [minus] →
      minus.kind = .operator .subtract → signAfter before.getLast? = false)
    (hback : scan false back.toList = .ok lexemes) :
    ofLine (front ++ "2147483648" ++ back) = .error (.integerOutOfRange "2147483648") := by
  refine (h.ofLine_magnitude (Nat.le_refl Lexeme.largestMagnitude)).trans ?_
  rw [hback]
  exact ofLexemes_outOfRange hdone _ _ _

/-- So it is with the lowest integer where no sign may be. -/
theorem Place.ofLine_minValue (hsign : signAfter done.getLast? = false)
    (hback : scan false back.toList = .ok lexemes) :
    ofLine (front ++ toString Int32.minValue ++ back) = .error (.integerOutOfRange "2147483648") := by
  refine (h.ofLine_negative (Nat.le_refl Lexeme.largestMagnitude)).trans ?_
  rw [hback]
  let minus : Token := ⟨.operator .subtract, "-", spaced⟩
  have hdone : ∀ before last, done ++ [minus] = before ++ [last] →
      last.kind = .operator .subtract → signAfter before.getLast? = false := by
    intro before last heq _
    obtain ⟨rfl, -⟩ := List.append_inj' heq rfl
    exact hsign
  have hread := ofLexemes_outOfRange hdone "2147483648" false lexemes
  rw [List.reverse_append] at hread
  exact hread

end Places

end Lexed

end BuildScript
