import BuildScript.Proofs.Token.Rendering

/-!
Runs of tokens cut out of a line. The lexemes of a line compose its tokens group by group, and no
group reaches over a separator, so the tokens on either side of one are composed of lexemes that can
be written as before. Two things depend on what stood in front of the cut: a point glued to a word
is member access only after something, and the lowest integer is one number only where a minus is a
sign.
-/

namespace BuildScript

namespace Lexed

/-- The lexemes of the rendered tokens, group by group, wherever the tokens stand. -/
inductive Composed : List Token → List Lexeme → Prop
  | nil : Composed [] []
  | single {kind tokens lexemes} {lexeme : Lexeme} (hkind : lexeme.tokenKind? = some kind)
    (hrest : Composed tokens lexemes) :
    Composed (⟨kind, lexeme.text, lexeme.spaced⟩ :: tokens) (lexeme :: lexemes)
  | ownMember {point word tokens lexemes} (hrest : Composed tokens lexemes) :
    Composed (⟨.ownMember word, point ++ word, true⟩ :: tokens)
      (⟨.dot, point, true⟩ :: ⟨.word, word, false⟩ :: lexemes)
  | member {point word tokens lexemes} (hrest : Composed tokens lexemes) :
    Composed (⟨.operator .member, point, false⟩ :: ⟨wordKind word, word, false⟩ :: tokens)
      (⟨.dot, point, false⟩ :: ⟨.word, word, false⟩ :: lexemes)
  | negative {minus value text spaced tokens lexemes}
    (hvalue : ¬value < Lexeme.largestMagnitude) (hrest : Composed tokens lexemes) :
    Composed (⟨.literal (.int Int32.minValue), "-" ++ text, spaced⟩ :: tokens)
      (⟨.operator .subtract, minus, spaced⟩ :: ⟨.magnitude value, text, false⟩ :: lexemes)

variable {done tokens before after : List Token} {token : Token} {lexemes rest : List Lexeme}
  {lexed : Lexed} {line : String}

theorem Composed.append {others : List Lexeme} (h : Composed before lexemes)
    (hafter : Composed after others) : Composed (before ++ after) (lexemes ++ others) := by
  induction h with
  | nil => exact hafter
  | single hkind hrest ih => exact .single hkind ih
  | ownMember hrest ih => exact .ownMember ih
  | member hrest ih => exact .member ih
  | negative hvalue hrest ih => exact .negative hvalue ih

/-- A kind that no other lexeme than its own has a part in. -/
inductive StandsAlone : TokenKind → Prop
  | separator {separator} : StandsAlone (.separator separator)
  | minus : StandsAlone (.operator .subtract)

theorem StandsAlone.ne_wordKind (word : String) : ¬StandsAlone (wordKind word) := by
  rcases wordKind_cases word with ⟨value, hkind⟩ | ⟨keyword, hkind⟩ | hkind <;>
    · rw [hkind]
      nofun

theorem StandsAlone.of_isSeparator {separator : Separator}
    (h : token.isSeparator separator = true) : StandsAlone token.kind := by
  unfold Token.isSeparator at h
  split at h
  · rename_i other hkind
    exact hkind ▸ .separator
  · cases h

/-- The groups of lexemes fall on either side of a token that stands alone. -/
theorem Composed.split (h : Composed (before ++ token :: after) lexemes)
    (halone : StandsAlone token.kind) :
    ∃ front lexeme back, lexemes = front ++ lexeme :: back ∧ Composed before front ∧
      Composed [token] [lexeme] ∧ Composed after back := by
  generalize htokens : before ++ token :: after = tokens at h
  induction h generalizing before with
  | nil => simp at htokens
  | @single kind tokens lexemes lexeme hkind hrest ih =>
    cases before with
    | nil =>
      obtain ⟨rfl, rfl⟩ := List.cons.inj htokens
      exact ⟨[], lexeme, lexemes, rfl, .nil, .single hkind .nil, hrest⟩
    | cons first before =>
      obtain ⟨rfl, htail⟩ := List.cons.inj htokens
      obtain ⟨front, middle, back, rfl, hfront, hmiddle, hback⟩ := ih htail
      exact ⟨_ :: front, middle, back, rfl, .single hkind hfront, hmiddle, hback⟩
  | ownMember hrest ih =>
    cases before with
    | nil =>
      obtain ⟨rfl, -⟩ := List.cons.inj htokens
      cases halone
    | cons first before =>
      obtain ⟨rfl, htail⟩ := List.cons.inj htokens
      obtain ⟨front, middle, back, rfl, hfront, hmiddle, hback⟩ := ih htail
      exact ⟨_ :: _ :: front, middle, back, rfl, .ownMember hfront, hmiddle, hback⟩
  | member hrest ih =>
    cases before with
    | nil =>
      obtain ⟨rfl, -⟩ := List.cons.inj htokens
      cases halone
    | cons first before =>
      obtain ⟨rfl, hword⟩ := List.cons.inj htokens
      cases before with
      | nil =>
        obtain ⟨rfl, -⟩ := List.cons.inj hword
        exact absurd halone (StandsAlone.ne_wordKind _)
      | cons second before =>
        obtain ⟨rfl, htail⟩ := List.cons.inj hword
        obtain ⟨front, middle, back, rfl, hfront, hmiddle, hback⟩ := ih htail
        exact ⟨_ :: _ :: front, middle, back, rfl, .member hfront, hmiddle, hback⟩
  | negative hvalue hrest ih =>
    cases before with
    | nil =>
      obtain ⟨rfl, -⟩ := List.cons.inj htokens
      cases halone
    | cons first before =>
      obtain ⟨rfl, htail⟩ := List.cons.inj htokens
      obtain ⟨front, middle, back, rfl, hfront, hmiddle, hback⟩ := ih htail
      exact ⟨_ :: _ :: front, middle, back, rfl, .negative hvalue hfront, hmiddle, hback⟩

/-- The lexemes that compose the tokens so far, with the rest as it is rendered, compose the
tokens of the line. -/
theorem Formed.composed (h : Formed done rest lexed) (hdone : Composed done.reverse lexemes) :
    Composed lexed.tokens (lexemes ++ Lexeme.rendered rest) := by
  induction h generalizing lexemes with
  | done | continued =>
    exact (List.append_nil lexemes).symm ▸ hdone
  | single hkind hrest ih =>
    rw [Lexeme.rendered_single hkind, List.append_cons]
    exact ih (by simpa using hdone.append (.single hkind .nil))
  | @ownMember done point word rest lexed hrest ih =>
    have hread := ih (by simpa using hdone.append (.ownMember .nil))
    rwa [List.append_assoc] at hread
  | @member done point word rest lexed hrest ih =>
    have hread := ih (by simpa using hdone.append (.member .nil))
    rwa [List.append_assoc] at hread
  | @negative before minus value text minusSpaced spaced rest lexed hvalue hsign hrest ih =>
    -- The minus is the last token so far, and its lexeme the last lexeme.
    rw [List.reverse_cons] at hdone
    obtain ⟨front, lexeme, back, rfl, hfront, hminus, hback⟩ := hdone.split .minus
    cases hback
    cases hminus with
    | @single kind tokens lexemes lexeme hkind hrest =>
      have hlexeme := Lexeme.kind_of_operator hkind
      obtain ⟨lexemeKind, lexemeText, lexemeSpaced⟩ := lexeme
      obtain rfl : lexemeKind = .operator .subtract := hlexeme
      have hnegative :
          Composed [⟨.literal (.int Int32.minValue), "-" ++ text, lexemeSpaced⟩]
            [⟨.operator .subtract, lexemeText, lexemeSpaced⟩, ⟨.magnitude value, text, false⟩] :=
        .negative hvalue .nil
      have hread := ih (by simpa using hfront.append hnegative)
      simpa [Lexeme.rendered, Lexeme.rendered?, hvalue] using hread

/-- The tokens are written as the lexemes are. -/
theorem Composed.chars_eq (h : Composed tokens lexemes) (hspelled : Lexeme.Spelled lexemes) :
    Token.chars tokens = Lexeme.chars lexemes := by
  induction h with
  | nil => rfl
  | single hkind hrest ih =>
    rw [Token.chars_cons, Lexeme.chars_cons, ih hspelled.2]
    rfl
  | ownMember hrest ih =>
    rw [Token.chars_cons, ih hspelled.2.2]
    simp [Token.written, Lexeme.chars_cons, Lexeme.written]
  | member hrest ih =>
    rw [Token.chars_cons, Token.chars_cons, ih hspelled.2.2]
    simp [Token.written, Lexeme.chars_cons, Lexeme.written]
  | @negative minus value text spaced tokens lexemes hvalue hrest ih =>
    obtain rfl : minus = "-" := (hspelled.1.minus rfl).1
    rw [Token.chars_cons, ih hspelled.2.2]
    simp [Token.written, Lexeme.chars_cons, Lexeme.written]

/-- Wherever the lowest integer stands among tokens that follow `before`, a minus is a sign. -/
def Signed (before : Option Token) : List Token → Prop
  | [] => True
  | token :: rest =>
    (token.kind = .literal (.int Int32.minValue) → signAfter before = true) ∧
      Signed (some token) rest

theorem signed_append {front : Option Token} :
    Signed front (before ++ after) ↔ Signed front before ∧
      Signed (before.getLast?.or front) after := by
  induction before generalizing front with
  | nil => simp [Signed]
  | cons token before ih =>
    rw [List.cons_append, Signed, Signed, ih, and_assoc, List.getLast?_cons]
    cases before.getLast? <;> rfl

theorem signed_congr {front front' : Option Token} (h : signAfter front = signAfter front') :
    Signed front tokens ↔ Signed front' tokens := by
  cases tokens with
  | nil => rfl
  | cons token rest => rw [Signed, Signed, h]

/-- No lexeme is the lowest integer by itself. -/
theorem tokenKind?_ne_minValue (lexeme : Lexeme) :
    lexeme.tokenKind? ≠ some (.literal (.int Int32.minValue)) := by
  obtain ⟨lexemeKind, text, spaced⟩ := lexeme
  intro h
  unfold Lexeme.tokenKind? at h
  cases lexemeKind with
  | magnitude value =>
    dsimp only at h
    split at h
    · rename_i hvalue
      have hsame : Int32.ofNat value = Int32.minValue := by simpa using h
      have hint := congrArg Int32.toInt hsame
      rw [Int32.toInt_ofNat_of_lt hvalue] at hint
      exact absurd hint (by simp)
    · cases h
  | word =>
    rcases wordKind_cases text with ⟨value, hkind⟩ | ⟨keyword, hkind⟩ | hkind <;>
      · dsimp only at h
        rw [hkind] at h
        cases h
  | _ => cases h

/-- The tokens of a line are signed. -/
theorem Formed.signed (h : Formed done rest lexed) (hdone : Signed none done.reverse) :
    Signed none lexed.tokens := by
  induction h with
  | done | continued => exact hdone
  | @single done kind rest lexed lexeme hkind hrest ih =>
    refine ih ?_
    rw [List.reverse_cons, signed_append]
    exact ⟨hdone, fun hmin => absurd (hmin ▸ hkind) (tokenKind?_ne_minValue lexeme), trivial⟩
  | ownMember hrest ih =>
    refine ih ?_
    rw [List.reverse_cons, signed_append]
    exact ⟨hdone, nofun, trivial⟩
  | @member done point word rest lexed hrest ih =>
    refine ih ?_
    rw [List.reverse_cons, List.reverse_cons, List.append_assoc, signed_append]
    exact ⟨hdone, nofun, fun hmin => absurd (congrArg some hmin)
      (tokenKind?_ne_minValue ⟨.word, word, false⟩), trivial⟩
  | @negative before minus value text minusSpaced spaced rest lexed hvalue hsign hrest ih =>
    refine ih ?_
    rw [List.reverse_cons, signed_append] at hdone ⊢
    refine ⟨hdone.1, fun _ => ?_, trivial⟩
    rwa [List.getLast?_reverse, Option.or_none]

/-- Signed tokens are formed by the lexemes that compose them. -/
theorem Composed.formed (h : Composed tokens lexemes) (hsigned : Signed done.head? tokens) :
    Formed done lexemes ⟨done.reverse ++ tokens, false⟩ := by
  induction h generalizing done with
  | nil =>
    rw [List.append_nil]
    exact .done
  | single hkind hrest ih =>
    refine .single hkind ?_
    simpa using @ih (_ :: done) hsigned.2
  | ownMember hrest ih =>
    refine .ownMember ?_
    simpa using @ih (_ :: done) hsigned.2
  | member hrest ih =>
    refine .member ?_
    simpa using @ih (_ :: _ :: done) hsigned.2.2
  | negative hvalue hrest ih =>
    refine .single rfl (.negative hvalue (hsigned.1 rfl) ?_)
    simpa using @ih (_ :: done) hsigned.2

/-- Without the mark at their end, lexemes form a line that does not go on. -/
theorem Formed.not_continued (h : Formed done rest lexed)
    (hmark : ∀ lexeme ∈ rest, lexeme.kind ≠ .ellipsis) :
    lexed.continuation = false ∧ (lexed.tokens = [] → done = [] ∧ rest = []) := by
  induction h with
  | done => exact ⟨rfl, fun h => ⟨List.reverse_eq_nil_iff.mp h, rfl⟩⟩
  | continued => exact absurd rfl (hmark _ List.mem_cons_self)
  | single hkind hrest ih =>
    obtain ⟨hstops, hempty⟩ := ih fun lexeme hmem => hmark lexeme (.tail _ hmem)
    exact ⟨hstops, fun hnil => absurd (hempty hnil).1 (List.cons_ne_nil _ _)⟩
  | ownMember hrest ih | member hrest ih =>
    obtain ⟨hstops, hempty⟩ := ih fun lexeme hmem => hmark lexeme (.tail _ (.tail _ hmem))
    exact ⟨hstops, fun hnil => absurd (hempty hnil).1 (List.cons_ne_nil _ _)⟩
  | negative hvalue hsign hrest ih =>
    obtain ⟨hstops, hempty⟩ := ih fun lexeme hmem => hmark lexeme (.tail _ hmem)
    exact ⟨hstops, fun hnil => absurd (hempty hnil).1 (List.cons_ne_nil _ _)⟩

theorem Composed.no_mark (h : Composed tokens lexemes) :
    ∀ lexeme ∈ lexemes, lexeme.kind ≠ .ellipsis := by
  induction h with
  | nil => nofun
  | @single kind tokens lexemes lexeme hkind hrest ih =>
    refine List.forall_mem_cons.mpr ⟨fun hmark => ?_, ih⟩
    rw [Lexeme.tokenKind?, hmark] at hkind
    cases hkind
  | ownMember hrest ih | member hrest ih | negative hvalue hrest ih =>
    exact List.forall_mem_cons.mpr ⟨nofun, List.forall_mem_cons.mpr ⟨nofun, ih⟩⟩

end Lexed

namespace Lexeme

variable {lexeme : Lexeme} {lexemes others : List Lexeme}

/-- The lexemes with white space before the first, as at the front of a line. -/
def spaceFirst : List Lexeme → List Lexeme
  | [] => []
  | lexeme :: rest => { lexeme with spaced := true } :: rest

theorem scan_chars_spaceFirst (h : Spelled lexemes) :
    scan true (chars lexemes) = .ok (spaceFirst lexemes) := by
  cases lexemes with
  | nil =>
    rw [chars, List.flatMap_nil, scan]
    rfl
  | cons lexeme rest =>
    have hothers : scan false (chars rest) = .ok rest :=
      scan_chars h.2 fun _ _ hfalse => absurd hfalse Bool.false_ne_true
    rw [chars_cons, written, List.append_assoc]
    cases lexeme.spaced with
    | true => rw [if_pos rfl, List.singleton_append, scan_blank, h.1.scan_append hothers]; rfl
    | false => rw [if_neg Bool.false_ne_true, List.nil_append, h.1.scan_append hothers]; rfl

theorem Spelled.left (h : Spelled (lexemes ++ others)) : Spelled lexemes := by
  induction lexemes with
  | nil => trivial
  | cons lexeme rest ih =>
    obtain ⟨hfits, hrest⟩ := h
    refine ⟨?_, ih hrest⟩
    cases rest with
    | nil => exact hfits.none
    | cons next rest => exact hrest.1.head?_chars _ rest ▸ hfits

theorem Spelled.right (h : Spelled (lexemes ++ others)) : Spelled others := by
  induction lexemes with
  | nil => exact h
  | cons lexeme rest ih => exact ih h.2

/-- Lexemes may follow others with a blank in between. -/
theorem Spelled.append (h : Spelled lexemes) (hothers : Spelled others)
    (hbegin : MayBegin true others) : Spelled (lexemes ++ others) := by
  induction lexemes with
  | nil => exact hothers
  | cons lexeme rest ih =>
    obtain ⟨hfits, hrest⟩ := h
    refine ⟨?_, ih hrest⟩
    cases rest with
    | nil => exact hbegin.head?.elim (fun hnone => hnone ▸ hfits) fun hblank => hblank ▸ hfits.blank
    | cons next rest => exact hrest.1.head?_chars rest _ ▸ hfits

/-- Member access is written with a point, and a point is no operator. -/
theorem Fits.ne_member {next : Option Char} (h : lexeme.Fits next) :
    lexeme.kind ≠ .operator .member := by
  intro hkind
  obtain ⟨c, cs, glues, -, hspells, -⟩ := h
  rw [hkind] at hspells
  cases hspells with
  | symbol hread =>
    unfold readSymbol? at hread
    split at hread <;> cases hread

end Lexeme

/-- The tokens with white space before the first, as at the front of a line. -/
def Token.spaceFirst : List Token → List Token
  | [] => []
  | token :: rest => { token with spaced := true } :: rest

namespace Lexed

variable {tokens before after : List Token} {token : Token} {lexemes : List Lexeme} {lexed : Lexed}
  {line : String}

/-- The tokens are composed of lexemes that can be written. -/
def Written (tokens : List Token) : Prop :=
  ∃ lexemes, Composed tokens lexemes ∧ Lexeme.Spelled lexemes

/-- The tokens mean at the front of a line what they mean here: the first is no member access, whose
point would name a member of the receiver, and no lowest integer loses its sign. -/
structure CanBegin (tokens : List Token) : Prop where
  no_member : ∀ token ∈ tokens.head?, token.kind ≠ .operator .member
  signed : Signed none tokens

theorem Written.split (h : Written (before ++ token :: after)) (halone : StandsAlone token.kind) :
    Written before ∧ Written after := by
  obtain ⟨lexemes, hcomposed, hspelled⟩ := h
  obtain ⟨front, lexeme, back, rfl, hfront, -, hback⟩ := hcomposed.split halone
  exact ⟨⟨front, hfront, hspelled.left⟩, back, hback, hspelled.right.2⟩

theorem CanBegin.left (h : CanBegin (before ++ after)) : CanBegin before := by
  refine ⟨?_, (signed_append.mp h.signed).1⟩
  cases before with
  | nil => nofun
  | cons token before => exact h.no_member

theorem Composed.no_member (h : Composed tokens lexemes) (hspelled : Lexeme.Spelled lexemes)
    (hbegin : Lexeme.MayBegin true lexemes) :
    ∀ token ∈ tokens.head?, token.kind ≠ .operator .member := by
  cases h with
  | nil => nofun
  | @single kind tokens lexemes lexeme hkind hrest =>
    rintro _ ⟨⟩ rfl
    exact hspelled.1.ne_member (Lexeme.kind_of_operator hkind)
  | ownMember hrest | negative hvalue hrest =>
    rintro _ ⟨⟩
    nofun
  | member hrest => cases hbegin _ rfl rfl

/-- The tokens of a line are written, the first with white space before it, and can begin a line. -/
theorem written_of_ofLine (h : ofLine line = .ok lexed) :
    (∃ lexemes, Composed lexed.tokens lexemes ∧ Lexeme.Spelled lexemes ∧
      Lexeme.MayBegin true lexemes) ∧ CanBegin lexed.tokens := by
  unfold ofLine ofChars at h
  split at h
  · cases h
  · rename_i lexemes hscan
    obtain ⟨hspelled, hbegin, -⟩ := Lexeme.spelled_of_scan hscan
    have hformed := formed_iff.mpr h
    have hcomposed : Composed lexed.tokens (Lexeme.rendered lexemes) := hformed.composed .nil
    have hspelled := hformed.spelled hspelled
    have hbegin := hformed.mayBegin hbegin
    exact ⟨⟨_, hcomposed, hspelled, hbegin⟩, hcomposed.no_member hspelled hbegin,
      hformed.signed trivial⟩

theorem Composed.spaceFirst (h : Composed tokens lexemes)
    (hmember : ∀ token ∈ tokens.head?, token.kind ≠ .operator .member) :
    Composed (Token.spaceFirst tokens) (Lexeme.spaceFirst lexemes) := by
  cases h with
  | nil => exact .nil
  | @single kind tokens lexemes lexeme hkind hrest =>
    exact @Composed.single _ _ _ { lexeme with spaced := true } hkind hrest
  | ownMember hrest => exact .ownMember hrest
  | member hrest => exact absurd rfl (hmember _ rfl)
  | negative hvalue hrest => exact .negative hvalue hrest

theorem signed_spaceFirst {front : Option Token} (h : Signed front tokens) :
    Signed front (Token.spaceFirst tokens) := by
  cases tokens with
  | nil => trivial
  | cons token rest =>
    have hsame : signAfter (some { token with spaced := true }) = signAfter (some token) := rfl
    exact ⟨h.1, (signed_congr hsame).mpr h.2⟩

/-- Written tokens that can begin a line are read back from a line of their own. -/
theorem Written.read_back (h : Written tokens) (hbegin : CanBegin tokens) :
    ofLine (Token.render tokens) = .ok ⟨Token.spaceFirst tokens, false⟩ := by
  obtain ⟨lexemes, hcomposed, hspelled⟩ := h
  unfold ofLine ofChars
  rw [Token.scan_render, hcomposed.chars_eq hspelled, Lexeme.scan_chars_spaceFirst hspelled]
  exact formed_iff.mp ((hcomposed.spaceFirst hbegin.no_member).formed
    (signed_spaceFirst hbegin.signed))

/-- Whatever written tokens are read as on a line of their own, the line is not empty unless they
are, and does not go on. -/
theorem Written.not_continued (h : Written tokens)
    (hread : ofLine (Token.render tokens) = .ok lexed) :
    lexed.continuation = false ∧ (lexed.tokens = [] → tokens = []) := by
  obtain ⟨lexemes, hcomposed, hspelled⟩ := h
  unfold ofLine ofChars at hread
  rw [Token.scan_render, hcomposed.chars_eq hspelled, Lexeme.scan_chars_spaceFirst hspelled]
    at hread
  have hmark : ∀ lexeme ∈ Lexeme.spaceFirst lexemes, lexeme.kind ≠ .ellipsis := by
    have hmark := hcomposed.no_mark
    cases lexemes with
    | nil => nofun
    | cons lexeme rest =>
      obtain ⟨hfirst, hrest⟩ := List.forall_mem_cons.mp hmark
      exact List.forall_mem_cons.mpr ⟨hfirst, hrest⟩
  obtain ⟨hstops, hempty⟩ := (formed_iff.mpr hread).not_continued hmark
  refine ⟨hstops, fun hnil => ?_⟩
  have hlexemes := (hempty hnil).2
  cases hcomposed with
  | nil => rfl
  | _ => cases hlexemes

end Lexed

end BuildScript
