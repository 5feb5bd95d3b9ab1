import Mathlib
import BuildScript.Proofs.Body.Meaning
import BuildScript.Proofs.Likeness.Running
import BuildScript.Proofs.Spacing.Lines

/-!
Reading lines with idle ones between them. The items of a script and the members of a class are the
same but for idle lines in the bodies they declare, as long as none of the lines comes between a header
and the line with its brace, however deep the declaration is.
-/

namespace BuildScript

open Text (SourceLine)

/-- What a body holds: the members of a class, or statements. -/
inductive BodyKind where
  | statements
  | members

/-- The body of a declaration with this header. -/
def Header.kind : Header → BodyKind
  | .classNamed _ => .members
  | .function _ | .procedure _ => .statements

/-- The logical line that begins with a physical one ends with a header, and the line after it begins
with the brace of its body. -/
inductive Hangs : BodyKind → SourceLine → List SourceLine → SourceLine → Prop
  | declaration {line rest tokens opening left items header}
    (hline : spliceLine line rest = (.ok tokens, opening :: left))
    (hheader : Item.HeaderLast line.number tokens items header)
    (hopens : Body.opensWithBrace opening = true) : Hangs .statements line rest opening
  | method {line rest tokens opening left entries signature}
    (hline : spliceLine line rest = (.ok tokens, opening :: left))
    (hheader : ClassEntry.MethodLast line.number tokens entries signature)
    (hopens : Body.opensWithBrace opening = true) : Hangs .members line rest opening

/-- The lines after a logical line. -/
def BodyKind.leftAfter (kind : BodyKind) (line : SourceLine) (rest : List SourceLine) :
    List SourceLine :=
  match kind with
  | .statements => (Script.readLine line rest).2
  | .members => (ClassEntry.readLine line rest).2

/-- Lines of a kind declare a body. -/
inductive Declares : BodyKind → List SourceLine → BodyKind → List SourceLine → Prop
  | declaration {lines number items header body}
    (hline : ⟨number, .ok items⟩ ∈ Script.ofLines lines)
    (hitem : .declaration header (.ok body) ∈ items) :
    Declares .statements lines header.kind body
  | method {lines number signature body}
    (hentry : ⟨number, .ok (.method signature body)⟩ ∈ ClassEntry.ofLines lines) :
    Declares .members lines .statements body

/-- A declaration, among the lines or in a body that they declare, has its header at the end of a
logical line and its brace at the front of the line with this number. -/
inductive HangingBrace : BodyKind → List SourceLine → Nat → Prop
  | here {kind line rest opening} (h : Hangs kind line rest opening) :
    HangingBrace kind (line :: rest) opening.number
  | later {kind line rest number} (h : HangingBrace kind (kind.leftAfter line rest) number) :
    HangingBrace kind (line :: rest) number
  | inside {kind lines kind' body number} (hbody : Declares kind lines kind' body)
    (h : HangingBrace kind' body number) : HangingBrace kind lines number

/-- The same entry of a class but for its line and the body it declares, which `B` compares. -/
inductive ClassEntry.Alike (B : List SourceLine → List SourceLine → Prop) :
    ClassEntry → ClassEntry → Prop
  | error (number number' e) : Alike B ⟨number, .error e⟩ ⟨number', .error e⟩
  | field (number number' type name) :
    Alike B ⟨number, .ok (.field type name)⟩ ⟨number', .ok (.field type name)⟩
  | method (number number' signature) {body body'} (h : B body body') :
    Alike B ⟨number, .ok (.method signature body)⟩ ⟨number', .ok (.method signature body')⟩

/-- The same logical line but for its number and the bodies it declares. -/
inductive ScriptLine.Alike (B C : List SourceLine → List SourceLine → Prop) :
    ScriptLine → ScriptLine → Prop
  | error (number number' e) : Alike B C ⟨number, .error e⟩ ⟨number', .error e⟩
  | items (number number') {items items'} (h : List.Forall₂ (Item.Alike B C) items items') :
    Alike B C ⟨number, .ok items⟩ ⟨number', .ok items'⟩

/-- Nothing stands on the line. -/
def ScriptLine.isEmpty (line : ScriptLine) : Bool :=
  match line.items with
  | .ok [] => true
  | _ => false

/-- The lines on which something stands. -/
def Script.occupied (script : Script) : Script := script.filter (!·.isEmpty)

namespace Body

variable {name : String} {number : Nat} {tokens : List Token} {rest left : List SourceLine}
  {body : List SourceLine} {index : Nat}

theorem close_ne_inside (lines : List SourceLine) (kept after : List Token) :
    close lines number kept after ≠ .ok ⟨body, some index⟩ := by
  cases after <;> nofun

theorem captureLines_ne_inside (name : String) (depth : Nat) (lines rest : List SourceLine) :
    captureLines name depth lines rest ≠ (.ok ⟨body, some index⟩, left) := by
  induction rest generalizing depth lines with
  | nil => nofun
  | cons line rest ih =>
    unfold captureLines
    dsimp only
    split
    · exact fun h => close_ne_inside _ _ _ (Prod.mk.inj h).1
    · exact ih _ _

/-- A body after which a line is read on stands on that line. -/
theorem capture_inside (h : capture name number tokens rest = (.ok ⟨body, some index⟩, left))
    (lines : List SourceLine) :
    left = rest ∧ capture name number tokens lines = (.ok ⟨body, some index⟩, lines) := by
  cases tokens with
  | nil =>
    by_cases hunopened : Unopened rest
    · rw [capture_unopened hunopened] at h
      cases h
    · obtain ⟨opening, after, rfl, hopens⟩ := opens_of_unopened hunopened
      rw [capture_opened hopens, openedBy] at h
      split at h
      · exact absurd (Prod.mk.inj h).1 (close_ne_inside _ _ _)
      · exact absurd h (captureLines_ne_inside _ _ _ _)
  | cons first others =>
    unfold capture at h ⊢
    dsimp only at h ⊢
    split at h
    · rename_i hopen
      rw [if_pos hopen]
      split at h
      · cases h
        exact ⟨rfl, rfl⟩
      · exact absurd h (captureLines_ne_inside _ _ _ _)
    · cases h

end Body

variable {shut : Nat → Prop} {bound : Prop} {lines lines' rest rest' : List SourceLine}
  {tokens : List Token} {number : Nat}

/-- Bodies with idle lines put in. -/
abbrev Widened (shut : Nat → Prop) : List SourceLine → List SourceLine → Prop := Spaced shut False

/-- A body of the kind that `kind` says. -/
theorem Item.Alike.declared {B : List SourceLine → List SourceLine → Prop} (header : Header)
    {body body' : List SourceLine} (h : B body body') :
    Item.Alike B B (.declaration header (.ok body)) (.declaration header (.ok body')) := by
  cases header with
  | classNamed name => exact .classBody name h
  | function signature => exact .body _ (fun name => Header.noConfusion) h
  | procedure name' => exact .body _ (fun name => Header.noConfusion) h

/-- The same items are read but for idle lines in the bodies they declare, and the same lines are left
but for idle ones. -/
def Item.ReadAlike (shut : Nat → Prop) (read read' : List Item × List SourceLine) : Prop :=
  List.Forall₂ (Item.Alike (Widened shut) (Widened shut)) read.1 read'.1 ∧ Widened shut read.2 read'.2

/-- So it is from a declaration on, if it is behind its body. -/
theorem Item.afterBody_spaced (header : Header) (number number' : Nat)
    {taken taken' : Except SyntaxError Body.Captured × List SourceLine}
    (h : Body.Taken shut False taken taken')
    (hbehind : ∀ {body index left left'}, taken = (.ok ⟨body, some index⟩, left) →
      Widened shut left left' → ReadAlike shut (ofTokens number (tokens.drop index) left)
        (ofTokens number' (tokens.drop index) left')) :
    ReadAlike shut (afterBody number header tokens taken.1 taken.2)
      (afterBody number' header tokens taken'.1 taken'.2) := by
  cases h with
  | error e hleft => exact ⟨.cons (.same _ fun _ _ heq => by cases heq) .nil, hleft⟩
  | ok resume hbody hleft =>
    cases resume with
    | none => exact ⟨.cons (.declared header hbody) .nil, hleft⟩
    | some index =>
      obtain ⟨hitems, hleft⟩ := hbehind rfl hleft
      exact ⟨.cons (.declared header hbody) hitems, hleft⟩

/-- The items of a logical line are the same but for idle lines in the bodies they declare. -/
theorem Item.ofTokens_spaced (h : Spaced shut bound rest rest')
    (hwritten : Lexed.EndsWritten tokens)
    (hshut : ∀ {items header}, HeaderLast number tokens items header →
      ∀ opening ∈ rest.head?, Body.opensWithBrace opening = true → shut opening.number)
    (number' : Nat) :
    ReadAlike shut (ofTokens number tokens rest) (ofTokens number' tokens rest') := by
  induction hlength : tokens.length using Nat.strongRecOn generalizing tokens rest rest' bound with
  | ind length ih =>
    cases tokens with
    | nil =>
      rw [ofTokens, ofTokens]
      exact ⟨.nil, h.free⟩
    | cons token tokens =>
      have hshorter {others : List Token} (hothers : others <:+ tokens) : others.length < length :=
        hlength ▸ Nat.lt_succ_of_le hothers.length_le
      have hends {others : List Token} (hothers : others <:+ tokens) : Lexed.EndsWritten others :=
        hwritten.suffix (hothers.trans (List.suffix_cons token tokens))
      cases hread : Clause.read? token tokens with
      | none =>
        rw [ofTokens_empty hread, ofTokens_empty hread]
        exact ih _ (hshorter (List.suffix_refl tokens)) h (hends (List.suffix_refl tokens))
          (fun hheader => hshut (.empty hread hheader)) rfl
      | some read =>
        obtain ⟨clause, n⟩ := read
        have hdrop := List.drop_suffix n tokens
        cases hclause : ofClause clause with
        | inl item =>
          rw [ofTokens_item hread hclause, ofTokens_item hread hclause]
          obtain ⟨hitems, hleft⟩ := ih _ (hshorter hdrop) h (hends hdrop)
            (fun hheader => hshut (.item hread hclause hheader)) rfl
          refine ⟨.cons (.same item fun header body => ?_) hitems, hleft⟩
          exact Program.ofClause_undeclared hclause header _
        | inr header =>
          rw [ofTokens_declaration hread hclause, ofTokens_declaration hread hclause]
          refine afterBody_spaced header number number' (Body.capture_taken h (hends hdrop)
            (fun hend => hshut (.header hread hclause hend)) header.name number number') ?_
          intro body index left left' hcapture hleft
          have hinside := Body.capture_inside hcapture
          obtain rfl := (hinside []).1
          have hlater := (List.drop_suffix index (tokens.drop n)).trans hdrop
          exact ih _ (hshorter hlater) hleft (hends hlater)
            (fun hheader => hshut (.declared hread hclause (fun rest => (hinside rest).2) hheader)) rfl

namespace Script

/-- A logical line is the same but for idle lines in the bodies it declares. -/
theorem readLine_spaced {line : SourceLine} (h : Spaced shut line.GoesOn rest rest')
    (hshut : ∀ opening, Hangs .statements line rest opening → shut opening.number) (number : Nat) :
    ScriptLine.Alike (Widened shut) (Widened shut) (readLine line rest).1
        (readLine ⟨number, line.text⟩ rest').1 ∧
      Widened shut (readLine line rest).2 (readLine ⟨number, line.text⟩ rest').2 := by
  obtain ⟨htokens, hleft⟩ := h.spliceLine_eq number
  unfold readLine
  dsimp only
  rw [htokens]
  cases hspliced : spliceLine line rest with
  | mk result left =>
    rw [hspliced] at hleft
    cases result with
    | error e => exact ⟨.error _ _ e, hleft⟩
    | ok tokens =>
      obtain ⟨lexemes, hcomposed, hspelled, -⟩ := Body.written_of_spliceLine hspliced
      have hheads {items : List Item} {header : Header}
          (hheader : Item.HeaderLast line.number tokens items header) :
          ∀ opening ∈ left.head?, Body.opensWithBrace opening = true → shut opening.number := by
        intro opening hhead hopens
        obtain ⟨after, rfl⟩ := List.head?_eq_some_iff.mp hhead
        exact hshut opening (.declaration hspliced hheader hopens)
      obtain ⟨hitems, hafter⟩ :=
        Item.ofTokens_spaced hleft ⟨[], lexemes, hcomposed, hspelled⟩ hheads number
      exact ⟨.items _ _ hitems, hafter⟩

/-- What stands on one more line. -/
theorem occupied_alike {B C : List SourceLine → List SourceLine → Prop} {line line' : ScriptLine}
    {script script' : Script} (hline : line.Alike B C line')
    (hrest : List.Forall₂ (ScriptLine.Alike B C) (occupied script) (occupied script')) :
    List.Forall₂ (ScriptLine.Alike B C) (occupied (line :: script)) (occupied (line' :: script')) := by
  have hempty : line.isEmpty = line'.isEmpty := by
    cases hline with
    | error => rfl
    | items _ _ hitems => cases hitems <;> rfl
  unfold occupied at hrest ⊢
  rw [List.filter_cons, List.filter_cons, hempty]
  split
  · exact .cons hline hrest
  · exact hrest

/-- A line that holds nothing makes an empty logical line. -/
theorem ofLines_idle {line : SourceLine} (h : line.isIdle = true) (rest : List SourceLine) :
    ofLines (line :: rest) = ⟨line.number, .ok []⟩ :: ofLines rest := by
  rw [ofLines_cons, readLine, SourceLine.spliceLine_idle h]
  dsimp only [lineOf]
  rw [Item.ofTokens]

/-- What stands in the script is the same but for idle lines in bodies. -/
theorem ofLines_spaced (h : Spaced shut bound lines lines')
    (hshut : ∀ number, HangingBrace .statements lines number → shut number) :
    List.Forall₂ (ScriptLine.Alike (Widened shut) (Widened shut)) (occupied (ofLines lines))
      (occupied (ofLines lines')) := by
  induction hlength : lines'.length using Nat.strongRecOn generalizing lines lines' bound with
  | ind length ih =>
    cases h with
    | nil =>
      rw [ofLines_nil]
      exact .nil
    | @idle _ line _ rest' hbound hidle hnext hrest =>
      rw [ofLines_idle hidle]
      exact ih rest'.length (by rw [← hlength]; exact Nat.lt_succ_self _) hrest hshut rfl
    | @line _ line rest rest' number hrest =>
      obtain ⟨hline, hleft⟩ := readLine_spaced hrest (fun opening h => hshut _ (.here h)) number
      have hless : (readLine ⟨number, line.text⟩ rest').2.length < length := by
        rw [← hlength, List.length_cons]
        exact Nat.lt_succ_of_le ((readLine_frontal _).suffix rest').length_le
      have hothers := ih _ hless hleft (fun number h => hshut number (.later h)) rfl
      rw [ofLines_cons, ofLines_cons]
      exact occupied_alike hline hothers

end Script

end BuildScript
