import BuildScript.Proofs.Body.Capture

/-!
What a captured body means. The cut in front of the brace that closes never changes what the body
says. The cut behind the brace that opens does in three cases: where a point is glued to the brace,
where a lowest integer would keep its minus only behind the brace, and where the cut line goes on,
since the mark at its end is not kept.
-/

namespace BuildScript

open Text (SourceLine)
open Lexed (Written CanBegin Signed signAfter)

namespace Lexed

variable {tokens tokens' : List Token}

theorem signAfter_congr {token token' : Token} (h : token.kind = token'.kind) :
    signAfter (some token) = signAfter (some token') := by
  rw [signAfter, signAfter, h]

theorem Signed.congr {front front' : Option Token} (h : Signed front tokens)
    (hfront : signAfter front = signAfter front')
    (hkinds : tokens.map Token.kind = tokens'.map Token.kind) : Signed front' tokens' := by
  induction tokens generalizing tokens' front front' with
  | nil =>
    obtain rfl := List.map_eq_nil_iff.mp hkinds.symm
    trivial
  | cons token tokens ih =>
    cases tokens' with
    | nil => cases hkinds
    | cons token' tokens' =>
      obtain ⟨hkind, hrest⟩ := List.cons.inj hkinds
      exact ⟨fun hmin => hfront ▸ h.1 (hkind.trans hmin), ih h.2 (signAfter_congr hkind) hrest⟩

/-- Whether tokens can begin a line depends on their kinds. -/
theorem CanBegin.congr (h : CanBegin tokens)
    (hkinds : tokens.map Token.kind = tokens'.map Token.kind) : CanBegin tokens' := by
  refine ⟨fun token hmem hmember => ?_, h.signed.congr rfl hkinds⟩
  obtain ⟨rest', rfl⟩ := List.head?_eq_some_iff.mp hmem
  cases tokens with
  | nil => cases hkinds
  | cons first rest => exact h.no_member first rfl ((List.cons.inj hkinds).1.trans hmember)

end Lexed

namespace Body

variable {first : Lexed} {region : List LexedLine} {tokens : List Token}

/-- What tokens say that are read from a line of their own. -/
def reread (tokens : List Token) : LineContent :=
  LogicalLine.content ((Lexed.ofLine (Token.render tokens)).map Lexed.tokens)

theorem reread_eq_iff (h : Written tokens) :
    reread tokens = LogicalLine.content (.ok tokens) ↔ CanBegin tokens := by
  constructor
  · intro hsame
    unfold reread at hsame
    cases hread : Lexed.ofLine (Token.render tokens) with
    | error e =>
      rw [hread] at hsame
      cases hsame
    | ok lexed =>
      rw [hread] at hsame
      have hcontent : lexed.tokens.map _ = tokens.map _ := Except.ok.inj hsame
      have hkinds := congrArg (List.map Prod.fst) hcontent
      rw [List.map_map, List.map_map] at hkinds
      exact (Lexed.written_of_ofLine hread).2.congr hkinds
  · intro hbegin
    rw [reread, h.read_back hbegin]
    exact content_spaceFirst tokens

/-- Tokens on a line of their own are a logical line. -/
theorem meaning_reread (h : Written tokens) (hne : tokens ≠ []) :
    meaning (joined (Lexed.ofLine (Token.render tokens) :: region)) =
      reread tokens :: meaning (joined region) := by
  unfold reread
  cases hread : Lexed.ofLine (Token.render tokens) with
  | error e => exact meaning_error e
  | ok lexed =>
    obtain ⟨hstops, hempty⟩ := h.not_continued hread
    rw [joined, hstops]
    exact meaning_ok fun hnil => hne (hempty hnil)

/-- The first line may be cut off: it means the same at the front of a line, and no line that says
something is joined to it. -/
structure Cuttable (first : Lexed) (region : List LexedLine) : Prop where
  begins : CanBegin first.tokens
  alone : first.tokens ≠ [] → first.continuation = true →
    ∀ next ∈ (joined region).head?, next = .ok []

theorem meaning_of_alone (hne : first.tokens ≠ [])
    (h : first.continuation = true → ∀ next ∈ (joined region).head?, next = .ok []) :
    meaning (joined (.ok first :: region)) =
      LogicalLine.content (.ok first.tokens) :: meaning (joined region) := by
  rw [joined]
  cases hcontinues : first.continuation with
  | false => exact meaning_ok hne
  | true =>
    cases hjoined : joined region with
    | nil => exact meaning_ok hne
    | cons next others =>
      have hnext : next = .ok [] := h hcontinues next (by rw [hjoined]; rfl)
      subst hnext
      dsimp only [Except.map]
      rw [List.append_nil]
      exact meaning_ok hne

/-- A line that is joined to the first is none of its own. -/
theorem length_meaning_of_joined {next : LogicalLine} (hcontinues : first.continuation = true)
    (hnext : next ∈ (joined region).head?) (hother : next ≠ .ok []) :
    (meaning (joined (.ok first :: region))).length = (meaning (joined region)).length := by
  obtain ⟨others, hjoined⟩ := List.head?_eq_some_iff.mp hnext
  rw [joined, hcontinues, hjoined]
  cases next with
  | error e => rfl
  | ok tokens =>
    have hne : tokens ≠ [] := fun hnil => hother (congrArg Except.ok hnil)
    have hlonger : first.tokens ++ tokens ≠ [] := fun hnil => hne (List.append_eq_nil_iff.mp hnil).2
    dsimp only [Except.map]
    rw [meaning_ok hne, meaning_ok hlonger]
    rfl

/-- Nothing in front of the other lines says nothing. -/
theorem meaning_of_empty (continuation : Bool) :
    meaning (joined (.ok ⟨[], continuation⟩ :: region)) = meaning (joined region) := by
  rw [joined]
  cases continuation with
  | false => rfl
  | true =>
    cases joined region with
    | nil => rfl
    | cons next others => cases next <;> rfl

/-- Cutting the first line off changes nothing just when it may be cut off. -/
theorem meaning_cutLine_iff {number : Nat} (h : Written first.tokens) :
    meaning (joined ((cutLine number first.tokens).map SourceLine.lexed ++ region)) =
      meaning (joined (.ok first :: region)) ↔ Cuttable first region := by
  by_cases hne : first.tokens = []
  · obtain ⟨tokens, continuation⟩ := first
    obtain rfl : tokens = [] := hne
    exact iff_of_true (meaning_of_empty continuation).symm
      ⟨⟨nofun, trivial⟩, fun hnil => absurd rfl hnil⟩
  · have hcut : (cutLine number first.tokens).map SourceLine.lexed =
        [Lexed.ofLine (Token.render first.tokens)] := by
      rw [cutLine, if_neg (by simpa using hne)]
      rfl
    rw [hcut, List.singleton_append, meaning_reread h hne]
    constructor
    · intro hsame
      have halone : first.continuation = true → ∀ next ∈ (joined region).head?, next = .ok [] := by
        intro hcontinues next hnext
        by_contra hother
        have hlength := congrArg List.length hsame
        rw [length_meaning_of_joined hcontinues hnext hother, List.length_cons] at hlength
        omega
      rw [meaning_of_alone hne halone] at hsame
      exact ⟨(reread_eq_iff h).mp (List.cons.inj hsame).1, fun _ => halone⟩
    · rintro ⟨hbegin, halone⟩
      rw [meaning_of_alone hne (halone hne), (reread_eq_iff h).mpr hbegin]

/-- The tokens of a logical line are written. -/
theorem written_of_spliceLine {line : SourceLine} {rest rest' : List SourceLine}
    (h : spliceLine line rest = (.ok tokens, rest')) :
    ∃ lexemes, Lexed.Composed tokens lexemes ∧ Lexeme.Spelled lexemes ∧
      Lexeme.MayBegin true lexemes := by
  induction rest generalizing line tokens with
  | nil =>
    unfold spliceLine at h
    cases hlexed : Lexed.ofLine line.text with
    | error e =>
      rw [hlexed] at h
      cases h
    | ok lexed =>
      rw [hlexed] at h
      cases h
      exact (Lexed.written_of_ofLine hlexed).1
  | cons next rest ih =>
    unfold spliceLine at h
    cases hlexed : Lexed.ofLine line.text with
    | error e =>
      rw [hlexed] at h
      cases h
    | ok lexed =>
      obtain ⟨lexemes, hcomposed, hspelled, hbegin⟩ := (Lexed.written_of_ofLine hlexed).1
      rw [hlexed] at h
      dsimp only at h
      split at h
      · obtain ⟨hmap, rfl⟩ := Prod.mk.inj h
        cases hspliced : (spliceLine next rest).1 with
        | error e =>
          rw [hspliced] at hmap
          cases hmap
        | ok others =>
          rw [hspliced] at hmap
          cases hmap
          obtain ⟨lexemes', hcomposed', hspelled', hbegin'⟩ := ih (Prod.ext hspliced rfl)
          refine ⟨lexemes ++ lexemes', hcomposed.append hcomposed',
            hspelled.append hspelled' hbegin', ?_⟩
          cases lexemes with
          | nil => exact hbegin'
          | cons lexeme lexemes => exact hbegin
      · cases h
        exact ⟨lexemes, hcomposed, hspelled, hbegin⟩

/-- What is cut off the first line is written if the line is. -/
theorem Between.written {whole : List LexedLine} (h : Between whole first region)
    (hwhole : ∀ lexed, whole.head? = some (.ok lexed) →
      ∃ before, Written (before ++ lexed.tokens)) :
    Written first.tokens := by
  cases h with
  | sameLine hopen hinside hclose =>
    obtain ⟨before, hwritten⟩ := hwhole _ rfl
    exact ((hwritten.split (.of_isSeparator hopen)).2.split (.of_isSeparator hclose)).1
  | laterLine hopen hinside hclose =>
    obtain ⟨before, hwritten⟩ := hwhole _ rfl
    exact (hwritten.split (.of_isSeparator hopen)).2

/-- A body opens at a brace on a line that lexes. -/
theorem Between.lexes {rest : List SourceLine} (h : Between (source tokens rest) first region)
    (hnil : tokens = []) : ∀ opening ∈ rest.head?, ∃ lexed, opening.lexed = .ok lexed := by
  subst hnil
  intro opening hmem
  obtain ⟨rest, rfl⟩ := List.head?_eq_some_iff.mp hmem
  generalize hwhole : source [] (opening :: rest) = whole at h
  cases h <;> exact ⟨_, (List.cons.inj hwhole).1⟩

theorem written_source {line : SourceLine} {before rest : List SourceLine} {header : List Token}
    (hheader : spliceLine line before = (.ok (header ++ tokens), rest)) (lexed : Lexed)
    (h : (source tokens rest).head? = some (.ok lexed)) :
    ∃ before, Written (before ++ lexed.tokens) := by
  cases tokens with
  | cons token tokens =>
    cases h
    obtain ⟨lexemes, hcomposed, hspelled, -⟩ := written_of_spliceLine hheader
    exact ⟨header, lexemes, hcomposed, hspelled⟩
  | nil =>
    cases rest with
    | nil => cases h
    | cons opening rest =>
      obtain ⟨lexemes, hcomposed, hspelled, -⟩ := (Lexed.written_of_ofLine (Option.some.inj h)).1
      exact ⟨[], lexemes, hcomposed, hspelled⟩

/-- A captured body says what is written between the braces, line by line, just when the first line
may be cut off where the brace opens. The cut before the closing brace never changes anything, and
neither does any line between. -/
theorem capture_meaning_iff {name : String} {number : Nat} {line : SourceLine}
    {before rest rest' : List SourceLine} {header : List Token} {captured : Captured}
    (hheader : spliceLine line before = (.ok (header ++ tokens), rest))
    (hcapture : capture name number tokens rest = (.ok captured, rest')) :
    ((tokens = [] → ∀ opening ∈ rest.head?, ∃ lexed, opening.lexed = .ok lexed) →
        ∃ first region, Between (source tokens rest) first region) ∧
      ∀ first region, Between (source tokens rest) first region →
        (meaning (logicalLines captured.lines) = meaning (joined (.ok first :: region)) ↔
          Cuttable first region) := by
  constructor
  · intro hlexes
    obtain ⟨first, region, hbetween, -⟩ := between_of_capture hcapture hlexes
    exact ⟨first, region, hbetween⟩
  · intro first region hbetween
    obtain ⟨first', region', hbetween', number', tail, hlines, hsimilar⟩ :=
      between_of_capture hcapture hbetween.lexes
    obtain ⟨rfl, rfl⟩ := hbetween.unique hbetween'
    have hwritten : Written first.tokens := hbetween.written (written_source hheader)
    rw [hlines, logicalLines_eq, List.map_append, (hsimilar.joined_append _).meaning_eq]
    exact meaning_cutLine_iff hwritten

/-- The tokens of `void f()`. -/
def headerTokens : List Token :=
  [⟨.identifier "void", "void", true⟩, ⟨.identifier "f", "f", true⟩,
    ⟨.separator .parenOpen, "(", false⟩, ⟨.separator .parenClose, ")", false⟩]

/-- A body that opens on a line of its own and closes at the end of another; a line in between goes
on. -/
def continuedInside : List SourceLine :=
  [⟨2, "\x7b x = 1"⟩, ⟨3, "println(x ..."⟩, ⟨4, "+ 2) \x7d"⟩]

def continuedFirst : Lexed :=
  ⟨[⟨.identifier "x", "x", true⟩, ⟨.operator .assign, "=", true⟩,
    ⟨.literal (.int 1), "1", true⟩], false⟩

def continuedRest : List LexedLine :=
  [.ok ⟨[⟨.identifier "println", "println", true⟩, ⟨.separator .parenOpen, "(", false⟩,
      ⟨.identifier "x", "x", false⟩], true⟩,
    .ok ⟨[⟨.operator .add, "+", true⟩, ⟨.literal (.int 2), "2", true⟩,
      ⟨.separator .parenClose, ")", false⟩], false⟩]

theorem continuedFirst_cuttable : Cuttable continuedFirst continuedRest := by
  refine ⟨⟨?_, ?_⟩, ?_⟩
  · rintro _ ⟨⟩ hmember
    cases hmember
  · refine ⟨fun hmin => ?_, fun hmin => ?_, fun _ => rfl, trivial⟩
    · cases hmin
    · cases hmin
  · intro _ hcontinues
    cases hcontinues

theorem continuedInside_kept :
    ∃ captured,
      spliceLine ⟨1, "void f()"⟩ continuedInside = (.ok (headerTokens ++ []), continuedInside) ∧
      capture "f" 1 [] continuedInside = (.ok captured, []) ∧
      captured.lines = [⟨2, "x = 1"⟩, ⟨3, "println(x ..."⟩, ⟨4, "+ 2)"⟩] ∧
      Between (source [] continuedInside) continuedFirst continuedRest ∧
      Cuttable continuedFirst continuedRest ∧
      meaning (logicalLines captured.lines) =
        meaning (joined (.ok continuedFirst :: continuedRest)) := by
  have hheader :
      spliceLine ⟨1, "void f()"⟩ continuedInside = (.ok (headerTokens ++ []), continuedInside) := by
    cbv
  have hcapture : capture "f" 1 [] continuedInside =
      (.ok ⟨[⟨2, "x = 1"⟩, ⟨3, "println(x ..."⟩, ⟨4, "+ 2)"⟩], none⟩, []) := by cbv
  have hsource : source [] continuedInside =
      .ok ⟨⟨.separator .braceOpen, "\x7b", true⟩ :: continuedFirst.tokens, false⟩ ::
        (continuedRest.take 1 ++
          [.ok ⟨(continuedRest.drop 1).flatMap LexedLine.tokens ++
            [⟨.separator .braceClose, "\x7d", true⟩], false⟩]) := by cbv
  have hbetween : Between (source [] continuedInside) continuedFirst continuedRest :=
    hsource ▸ @Between.laterLine _ continuedFirst.tokens _ (continuedRest.take 1)
      ((continuedRest.drop 1).flatMap LexedLine.tokens) _ _ _ _ rfl (by decide) rfl
  exact ⟨_, hheader, hcapture, rfl, hbetween, continuedFirst_cuttable,
    ((capture_meaning_iff hheader hcapture).2 _ _ hbetween).mpr continuedFirst_cuttable⟩

/-- A body that opens on a line of its own, which goes on. -/
def markedInside : List SourceLine := [⟨2, "\x7b println(1 ..."⟩, ⟨3, "+ 2)"⟩, ⟨4, "\x7d"⟩]

def markedFirst : Lexed :=
  ⟨[⟨.identifier "println", "println", true⟩, ⟨.separator .parenOpen, "(", false⟩,
    ⟨.literal (.int 1), "1", false⟩], true⟩

def markedRest : List LexedLine :=
  [.ok ⟨[⟨.operator .add, "+", true⟩, ⟨.literal (.int 2), "2", true⟩,
      ⟨.separator .parenClose, ")", false⟩], false⟩,
    .ok ⟨[], false⟩]

/-- The one line in the body becomes two: the mark is not kept. -/
theorem markedInside_torn :
    ∃ captured,
      spliceLine ⟨1, "void f()"⟩ markedInside = (.ok (headerTokens ++ []), markedInside) ∧
      capture "f" 1 [] markedInside = (.ok captured, []) ∧
      captured.lines = [⟨2, "println(1"⟩, ⟨3, "+ 2)"⟩] ∧
      Between (source [] markedInside) markedFirst markedRest ∧
      meaning (logicalLines captured.lines) ≠ meaning (joined (.ok markedFirst :: markedRest)) := by
  have hheader :
      spliceLine ⟨1, "void f()"⟩ markedInside = (.ok (headerTokens ++ []), markedInside) := by cbv
  have hcapture : capture "f" 1 [] markedInside =
      (.ok ⟨[⟨2, "println(1"⟩, ⟨3, "+ 2)"⟩], none⟩, []) := by cbv
  have hsource : source [] markedInside =
      .ok ⟨⟨.separator .braceOpen, "\x7b", true⟩ :: markedFirst.tokens, true⟩ ::
        (markedRest.take 1 ++
          [.ok ⟨[] ++ [⟨.separator .braceClose, "\x7d", true⟩], false⟩]) := by cbv
  have hbetween : Between (source [] markedInside) markedFirst markedRest :=
    hsource ▸ @Between.laterLine _ markedFirst.tokens _ (markedRest.take 1) [] _ _ _ _ rfl
      (by decide) rfl
  have htwo : (meaning (logicalLines [⟨2, "println(1"⟩, ⟨3, "+ 2)"⟩])).length = 2 := by cbv
  have hone : (meaning (joined (.ok markedFirst :: markedRest))).length = 1 := rfl
  refine ⟨_, hheader, hcapture, rfl, hbetween, fun hsame => ?_⟩
  rw [hsame, hone] at htwo
  cases htwo

end Body

end BuildScript
