import BuildScript.Script.Item

/-!
What reading takes of the lines that follow. Lines are only ever taken from the front, and an item
other than a declaration takes none. So where a logical line begins, what stands before is read
alike whatever follows, unless a brace does, which a header at the end of it would take.
-/

namespace BuildScript

open Text (SourceLine)

/-- No declaration takes these lines for its body: they do not begin with a brace. -/
def Unopened (lines : List SourceLine) : Prop :=
  ∀ line ∈ lines.head?, Body.opensWithBrace line = false

/-- Reading from the front. Where it stops before a line, it stops there whatever follows instead,
with the same result. -/
structure Frontal {α : Type} (read : List SourceLine → α × List SourceLine) : Prop where
  suffix : ∀ lines, (read lines).2 <:+ lines
  alike : ∀ {rest left : List SourceLine} {next : SourceLine} {after : List SourceLine},
    (read (rest ++ next :: after)).2 = left ++ next :: after → ∀ {tail}, Unopened tail →
      read (rest ++ tail) = ((read (rest ++ next :: after)).1, left ++ tail)

/-- What is left of the lines after one does not go on with it. -/
theorem ne_of_suffix_rest {line : SourceLine} {rest left lines : List SourceLine}
    (h : left <:+ rest) : left ≠ lines ++ line :: rest := by
  rintro rfl
  have hlength := h.length_le
  rw [List.length_append, List.length_cons] at hlength
  omega

/-- Reading that takes no line. -/
theorem Frontal.nothing {α : Type} (a : α) : Frontal fun lines => (a, lines) where
  suffix := List.suffix_refl
  alike h _ _ := by rw [List.append_cancel_right h]

/-- One reading after another, on what the first leaves. -/
theorem Frontal.andThen {α β : Type} {read : List SourceLine → α × List SourceLine}
    {further : α → List SourceLine → β × List SourceLine} (h : Frontal read)
    (hfurther : ∀ a, Frontal (further a)) :
    Frontal fun lines => further (read lines).1 (read lines).2 where
  suffix lines := ((hfurther _).suffix _).trans (h.suffix lines)
  alike := by
    intro rest left next after hleft tail htail
    obtain ⟨front, hfront⟩ := (hfurther (read (rest ++ next :: after)).1).suffix
      (read (rest ++ next :: after)).2
    rw [hleft, ← List.append_assoc] at hfront
    have hread := h.alike hfront.symm htail
    rw [hread]
    rw [← hfront] at hleft ⊢
    exact (hfurther _).alike hleft htail

theorem spliceLine_suffix (line : SourceLine) (rest : List SourceLine) :
    (spliceLine line rest).2 <:+ rest := by
  induction rest generalizing line with
  | nil => unfold spliceLine; split <;> simp_all
  | cons next rest ih =>
    unfold spliceLine
    split
    · exact List.suffix_refl _
    · contradiction
    · rename_i heq
      cases heq
      split
      · exact (ih _).trans (List.suffix_cons _ _)
      · exact List.suffix_refl _

theorem spliceLine_uncontinued {line : SourceLine} {result : Except SyntaxError (List Token)}
    (h : (Lexed.ofLine line.text).map Lexed.tokens = result)
    (hcontinuation : ∀ lexed, Lexed.ofLine line.text = .ok lexed → lexed.continuation = false)
    (rest : List SourceLine) : spliceLine line rest = (result, rest) := by
  subst h
  unfold spliceLine
  split
  · rename_i heq
    rw [heq]
    rfl
  · rename_i heq
    rw [heq]
    rfl
  · rename_i heq
    rw [hcontinuation _ heq, heq]
    rfl

theorem spliceLine_continued {line next : SourceLine} {lexed : Lexed}
    (h : Lexed.ofLine line.text = .ok lexed) (hcontinuation : lexed.continuation = true)
    (rest : List SourceLine) : spliceLine line (next :: rest) =
      ((spliceLine next rest).1.map (lexed.tokens ++ ·), (spliceLine next rest).2) := by
  conv => lhs; unfold spliceLine
  rw [h]
  dsimp only
  rw [if_pos hcontinuation]

/-- A line goes on if it lexes and its last token says so. -/
theorem continued_or (line : SourceLine) :
    (∃ lexed, Lexed.ofLine line.text = .ok lexed ∧ lexed.continuation = true) ∨
      ∀ lexed, Lexed.ofLine line.text = .ok lexed → lexed.continuation = false := by
  by_cases h : ∃ lexed, Lexed.ofLine line.text = .ok lexed ∧ lexed.continuation = true
  · exact .inl h
  · refine .inr fun lexed hlexed => ?_
    cases hcontinuation : lexed.continuation with
    | false => rfl
    | true => exact absurd ⟨lexed, hlexed, hcontinuation⟩ h

theorem spliceLine_frontal (line : SourceLine) : Frontal (spliceLine line) where
  suffix := spliceLine_suffix line
  alike := by
    intro rest left next after h tail htail
    induction rest generalizing line with
    | nil =>
      rcases continued_or line with ⟨lexed, hlexed, hcontinuation⟩ | huncontinued
      · rw [List.nil_append, spliceLine_continued hlexed hcontinuation] at h
        exact absurd h (ne_of_suffix_rest (spliceLine_suffix next after))
      · rw [spliceLine_uncontinued rfl huncontinued, spliceLine_uncontinued rfl huncontinued] at *
        rw [List.append_cancel_right h]
    | cons first rest ih =>
      rcases continued_or line with ⟨lexed, hlexed, hcontinuation⟩ | huncontinued
      · rw [List.cons_append, spliceLine_continued hlexed hcontinuation] at h ⊢
        rw [List.cons_append, spliceLine_continued hlexed hcontinuation, ih first h]
      · rw [spliceLine_uncontinued rfl huncontinued] at h ⊢
        rw [spliceLine_uncontinued rfl huncontinued, List.append_cancel_right h]

namespace Body

theorem captureLines_suffix (name : String) (depth : Nat) (lines rest : List SourceLine) :
    (captureLines name depth lines rest).2 <:+ rest := by
  induction rest generalizing depth lines with
  | nil => exact List.suffix_refl _
  | cons line rest ih =>
    unfold captureLines
    dsimp only
    split
    · exact List.suffix_cons line rest
    · exact (ih _ _).trans (List.suffix_cons line rest)

theorem capture_suffix (name : String) (number : Nat) (tokens : List Token)
    (rest : List SourceLine) : (capture name number tokens rest).2 <:+ rest := by
  unfold capture
  split
  · split
    · split
      · exact List.suffix_refl _
      · exact captureLines_suffix ..
    · exact List.suffix_refl _
  · rename_i opening rest
    split
    · dsimp only
      split
      · exact List.suffix_cons opening rest
      · exact (captureLines_suffix ..).trans (List.suffix_cons opening rest)
    · exact List.suffix_refl _
  · exact List.suffix_refl _

theorem captureLines_frontal (name : String) (depth : Nat) (lines : List SourceLine) :
    Frontal (captureLines name depth lines) where
  suffix := captureLines_suffix name depth lines
  alike := by
    intro rest left next after h tail htail
    induction rest generalizing depth lines with
    | nil =>
      -- The first line is taken in any case.
      have htaken : (captureLines name depth lines (next :: after)).2 <:+ after := by
        unfold captureLines
        dsimp only
        split
        · exact List.suffix_refl _
        · exact captureLines_suffix ..
      exact absurd h (ne_of_suffix_rest htaken)
    | cons line rest ih =>
      rw [List.cons_append] at h ⊢
      rw [List.cons_append]
      unfold captureLines at h ⊢
      dsimp only at h ⊢
      split at h
      · rw [List.append_cancel_right h]
      · exact ih _ _ h

/-- The body that a line opens, read off the lines after it. -/
def openedBy (name : String) (opening : SourceLine) (rest : List SourceLine) :
    Except SyntaxError Captured × List SourceLine :=
  let tokens := braceTokens opening.text
  match balance 0 tokens with
  | .closedAt index =>
    (close [] opening.number (tokens.take index).tail (tokens.drop (index + 1)), rest)
  | .nested depth => captureLines name depth (cutLine opening.number tokens.tail) rest

theorem openedBy_frontal (name : String) (opening : SourceLine) :
    Frontal (openedBy name opening) := by
  show Frontal fun rest => match balance 0 (braceTokens opening.text) with
    | .closedAt index => _
    | .nested depth => _
  split
  · exact .nothing _
  · exact captureLines_frontal ..

theorem capture_opened {opening : SourceLine} (h : opensWithBrace opening = true) (name : String)
    (number : Nat) (rest : List SourceLine) :
    capture name number [] (opening :: rest) = openedBy name opening rest := by
  unfold capture openedBy
  exact if_pos h

theorem capture_unopened {lines : List SourceLine} (h : Unopened lines) (name : String)
    (number : Nat) : capture name number [] lines = (.error (.expectedBody name), lines) := by
  cases lines with
  | nil => rfl
  | cons opening rest =>
    have hopening := h opening rfl
    unfold capture
    dsimp only
    rw [hopening]
    rfl

theorem capture_frontal (name : String) (number : Nat) (tokens : List Token) :
    Frontal (capture name number tokens) := by
  cases tokens with
  | cons first others =>
    show Frontal fun rest => if first.isSeparator .braceOpen then _ else _
    split
    · split
      · exact .nothing _
      · exact captureLines_frontal ..
    · exact .nothing _
  | nil =>
    refine ⟨capture_suffix name number [], fun {rest left next after} h {tail} htail => ?_⟩
    cases rest with
    | nil =>
      cases hopens : opensWithBrace next with
      | true =>
        rw [List.nil_append, capture_opened hopens] at h
        exact absurd h (ne_of_suffix_rest ((openedBy_frontal name next).suffix after))
      | false =>
        have hunopened : Unopened ([] ++ next :: after) := by
          rintro _ ⟨⟩
          exact hopens
        rw [capture_unopened hunopened] at h ⊢
        rw [List.nil_append, capture_unopened htail]
        obtain rfl : [] = left := List.append_cancel_right h
        rfl
    | cons opening rest =>
      cases hopens : opensWithBrace opening with
      | true =>
        rw [List.cons_append, capture_opened hopens] at h ⊢
        rw [List.cons_append, capture_opened hopens]
        exact (openedBy_frontal name opening).alike h htail
      | false =>
        have hunopened (lines : List SourceLine) : Unopened (opening :: rest ++ lines) := by
          rintro _ ⟨⟩
          exact hopens
        rw [capture_unopened (hunopened _)] at h ⊢
        rw [capture_unopened (hunopened _), List.append_cancel_right h]

end Body

namespace Item

/-- Declarations have a body to capture. -/
def declares : Item → Bool
  | declaration _ _ => true
  | _ => false

/-- The items of a line take lines for the bodies of declarations only. -/
theorem ofTokens_lines (number : Nat) (tokens : List Token) (rest : List SourceLine) :
    (ofTokens number tokens rest).2 <:+ rest ∧
      ((∀ item ∈ (ofTokens number tokens rest).1, item.declares = false) →
        (ofTokens number tokens rest).2 = rest) := by
  fun_induction ofTokens number tokens rest with
  | case1 rest => exact ⟨List.suffix_refl _, fun _ => rfl⟩
  | case2 rest token tokens h ih => exact ih
  | case3 rest token tokens clause n h item h' items rest' heq ih =>
    rw [heq] at ih
    exact ⟨ih.1, fun hnone => ih.2 fun item hitem => hnone item (List.mem_cons_of_mem _ hitem)⟩
  | case4 rest token tokens clause n h header h' e rest' heq =>
    have hsuffix := Body.capture_suffix header.name number (tokens.drop n) rest
    rw [heq] at hsuffix
    exact ⟨hsuffix, fun hnone => absurd (hnone _ List.mem_cons_self) (by simp [declares])⟩
  | case5 rest token tokens clause n h header h' body rest' heq =>
    have hsuffix := Body.capture_suffix header.name number (tokens.drop n) rest
    rw [heq] at hsuffix
    exact ⟨hsuffix, fun hnone => absurd (hnone _ List.mem_cons_self) (by simp [declares])⟩
  | case6 rest token tokens clause n h header h' body e rest' heq items rest'' heq' ih =>
    have hsuffix := Body.capture_suffix header.name number (tokens.drop n) rest
    rw [heq] at hsuffix
    rw [heq'] at ih
    exact ⟨ih.1.trans hsuffix,
      fun hnone => absurd (hnone _ List.mem_cons_self) (by simp [declares])⟩

/-- The items after a declaration whose body was captured. -/
def afterBody (number : Nat) (header : Header) (tokens : List Token) :
    Except SyntaxError Body.Captured → List SourceLine → List Item × List SourceLine
  | .error e, rest => ([.declaration header (.error e)], rest)
  | .ok ⟨body, none⟩, rest => ([.declaration header (.ok body)], rest)
  | .ok ⟨body, some end'⟩, rest =>
    let (items, rest) := ofTokens number (tokens.drop end') rest
    (.declaration header (.ok body) :: items, rest)

section

variable {number n : Nat} {token : Token} {tokens : List Token} {clause : Clause}

/-- A semicolon at the front is passed over. -/
theorem ofTokens_empty (hread : Clause.read? token tokens = none) (rest : List SourceLine) :
    ofTokens number (token :: tokens) rest = ofTokens number tokens rest := by
  rw [ofTokens, hread]

/-- The items from one on that is no declaration. -/
theorem ofTokens_item {item : Item} (hread : Clause.read? token tokens = some (clause, n))
    (hclause : ofClause clause = .inl item) (rest : List SourceLine) :
    ofTokens number (token :: tokens) rest = (item :: (ofTokens number (tokens.drop n) rest).1,
      (ofTokens number (tokens.drop n) rest).2) := by
  rw [ofTokens, hread]
  dsimp only
  rw [hclause]

/-- The items from a declaration on. -/
theorem ofTokens_declaration {header : Header} (hread : Clause.read? token tokens = some (clause, n))
    (hclause : ofClause clause = .inr header) (rest : List SourceLine) :
    ofTokens number (token :: tokens) rest = afterBody number header (tokens.drop n)
      (Body.capture header.name number (tokens.drop n) rest).1
      (Body.capture header.name number (tokens.drop n) rest).2 := by
  rw [ofTokens, hread]
  dsimp only
  rw [hclause]
  dsimp only
  obtain ⟨captured, rest⟩ := Body.capture header.name number (tokens.drop n) rest
  rcases captured with e | ⟨body, _ | end'⟩ <;> rfl

end

theorem ofTokens_frontal (number : Nat) (tokens : List Token) :
    Frontal (ofTokens number tokens) := by
  induction hlength : tokens.length using Nat.strongRecOn generalizing tokens with
  | ind length ih =>
    cases tokens with
    | nil =>
      have heq : ofTokens number [] = fun rest => ([], rest) := by
        funext rest
        unfold ofTokens
        rfl
      rw [heq]
      exact .nothing []
    | cons token tokens =>
      rw [List.length_cons] at hlength
      cases hread : Clause.read? token tokens with
      | none =>
        rw [funext (ofTokens_empty hread)]
        exact ih tokens.length (by omega) tokens rfl
      | some read =>
        obtain ⟨clause, n⟩ := read
        have hdrop (tokens' : List Token) (h : tokens'.length ≤ tokens.length) :
            Frontal (ofTokens number tokens') :=
          ih tokens'.length (by omega) tokens' rfl
        have hafter : (tokens.drop n).length ≤ tokens.length := by
          rw [List.length_drop]
          omega
        cases hclause : ofClause clause with
        | inl item =>
          rw [funext (ofTokens_item hread hclause)]
          exact (hdrop _ hafter).andThen fun items => .nothing (item :: items)
        | inr header =>
          rw [funext (ofTokens_declaration hread hclause)]
          refine (Body.capture_frontal header.name number _).andThen fun captured => ?_
          rcases captured with e | ⟨body, _ | end'⟩
          · exact .nothing _
          · exact .nothing _
          · refine (hdrop _ ?_).andThen fun items =>
              .nothing (.declaration header (.ok body) :: items)
            rw [List.length_drop]
            omega

end Item

namespace Script

/-- A logical line whose tokens are known, and the lines after it. -/
def lineOf (number : Nat) (tokens : Except SyntaxError (List Token)) (rest : List SourceLine) :
    ScriptLine × List SourceLine :=
  match tokens with
  | .error e => (⟨number, .error e⟩, rest)
  | .ok tokens =>
    let read := Item.ofTokens number tokens rest
    (⟨number, .ok read.1⟩, read.2)

/-- The logical line that begins with a physical one, and the lines after it. -/
def readLine (line : SourceLine) (rest : List SourceLine) : ScriptLine × List SourceLine :=
  let spliced := spliceLine line rest
  lineOf line.number spliced.1 spliced.2

theorem ofLines_cons (line : SourceLine) (rest : List SourceLine) :
    ofLines (line :: rest) = (readLine line rest).1 :: ofLines (readLine line rest).2 := by
  unfold readLine
  rw [ofLines]
  dsimp only
  obtain ⟨result, rest⟩ := spliceLine line rest
  cases result with
  | error e => rfl
  | ok tokens => rfl

theorem readLine_frontal (line : SourceLine) : Frontal (readLine line) := by
  have hline (tokens : Except SyntaxError (List Token)) : Frontal (lineOf line.number tokens) := by
    cases tokens with
    | error e => exact .nothing _
    | ok tokens =>
      exact (Item.ofTokens_frontal line.number tokens).andThen fun items =>
        .nothing (ScriptLine.mk line.number (.ok items))
  exact (spliceLine_frontal line).andThen hline

/-- Reading the lines comes to where a logical line begins with the given ones. -/
inductive Begins (here : List SourceLine) : List SourceLine → Prop
  | now : Begins here here
  | later {line : SourceLine} {rest : List SourceLine} (h : Begins here (readLine line rest).2) :
    Begins here (line :: rest)

theorem Begins.suffix {here lines : List SourceLine} (h : Begins here lines) : here <:+ lines := by
  induction h with
  | now => exact List.suffix_refl _
  | @later line rest h ih =>
    exact (ih.trans ((readLine_frontal line).suffix rest)).trans (List.suffix_cons line rest)

/-- Every logical line begins somewhere. -/
theorem ofLines_mem {line : ScriptLine} {lines : List SourceLine} (h : line ∈ ofLines lines) :
    ∃ first rest, Begins (first :: rest) lines ∧ (readLine first rest).1 = line := by
  induction hlength : lines.length using Nat.strongRecOn generalizing lines with
  | ind length ih =>
    cases lines with
    | nil =>
      rw [ofLines] at h
      cases h
    | cons first rest =>
      rw [ofLines_cons] at h
      rcases List.mem_cons.mp h with rfl | h
      · exact ⟨first, rest, .now, rfl⟩
      · have hless : (readLine first rest).2.length < length := by
          rw [← hlength, List.length_cons]
          exact Nat.lt_succ_of_le ((readLine_frontal first).suffix rest).length_le
        obtain ⟨first', rest', hbegins, hread⟩ := ih _ hless h rfl
        exact ⟨first', rest', .later hbegins, hread⟩

theorem readLine_number (line : SourceLine) (rest : List SourceLine) :
    (readLine line rest).1.number = line.number := by
  unfold readLine
  obtain ⟨result, left⟩ := spliceLine line rest
  cases result <;> rfl

/-- What stands before a logical line is read by itself, and alike if other lines follow. -/
theorem Begins.front {before after : List SourceLine} {next : SourceLine}
    (h : Begins (next :: after) (before ++ next :: after)) :
    ∃ front, ofLines (before ++ next :: after) = front ++ ofLines (next :: after) ∧
      ∀ tail, Unopened tail → ofLines (before ++ tail) = front ++ ofLines tail := by
  generalize hlines : before ++ next :: after = lines at h
  induction h generalizing before with
  | now =>
    obtain rfl : before = [] := by simpa using hlines
    exact ⟨[], rfl, fun _ _ => rfl⟩
  | @later line rest h ih =>
    cases before with
    | nil =>
      obtain ⟨rfl, rfl⟩ := List.cons.inj hlines
      have hrest := h.suffix.trans ((readLine_frontal next).suffix after)
      exact absurd (List.nil_append (next :: after)).symm (ne_of_suffix_rest hrest)
    | cons first before =>
      obtain ⟨rfl, rfl⟩ := List.cons.inj hlines
      obtain ⟨left, hleft⟩ := h.suffix
      obtain ⟨front, hhere, hfront⟩ := ih hleft
      refine ⟨(readLine first (before ++ next :: after)).1 :: front, ?_, fun tail htail => ?_⟩
      · rw [List.cons_append, ofLines_cons]
        exact congrArg (_ :: ·) hhere
      · rw [List.cons_append, ofLines_cons, (readLine_frontal first).alike hleft.symm htail,
          hfront tail htail, List.cons_append]

theorem ofLines_before {before after : List SourceLine} {next : SourceLine}
    (h : Begins (next :: after) (before ++ next :: after)) :
    ofLines (before ++ next :: after) = ofLines before ++ ofLines (next :: after) ∧
      ∀ tail, Unopened tail → ofLines (before ++ tail) = ofLines before ++ ofLines tail := by
  obtain ⟨front, hhere, hfront⟩ := h.front
  have hnone : ofLines ([] : List SourceLine) = [] := by
    unfold ofLines
    rfl
  have hbefore := hfront [] (fun _ hmem => by cases hmem)
  rw [List.append_nil, hnone, List.append_nil] at hbefore
  rw [hbefore]
  exact ⟨hhere, hfront⟩

end Script

end BuildScript
