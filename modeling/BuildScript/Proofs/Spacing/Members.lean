import Mathlib
import BuildScript.Proofs.Script.Members
import BuildScript.Proofs.Spacing.Reading

/-!
Reading a class body with idle lines in it, and what such lines come to in the bodies that a script or
a class declares: again bodies with idle lines in them, in no place that matters.
-/

namespace BuildScript

open Text (SourceLine)

namespace ClassEntry

variable {shut : Nat → Prop} {bound : Prop} {lines lines' rest rest' : List SourceLine}
  {tokens : List Token} {number : Nat}

/-- The same entries are read but for idle lines in the bodies of methods, and the same lines are left
but for idle ones. -/
def ReadAlike (shut : Nat → Prop) (read read' : List ClassEntry × List SourceLine) : Prop :=
  List.Forall₂ (ClassEntry.Alike (Widened shut)) read.1 read'.1 ∧ Widened shut read.2 read'.2

/-- So it is from a method on, if it is behind its body. -/
theorem afterBody_spaced (signature : Signature) (number number' : Nat)
    {taken taken' : Except SyntaxError Body.Captured × List SourceLine}
    (h : Body.Taken shut False taken taken')
    (hbehind : ∀ {body index left left'}, taken = (.ok ⟨body, some index⟩, left) →
      Widened shut left left' → ReadAlike shut (ofTokens number (tokens.drop index) left)
        (ofTokens number' (tokens.drop index) left')) :
    ReadAlike shut (afterBody number signature tokens taken.1 taken.2)
      (afterBody number' signature tokens taken'.1 taken'.2) := by
  cases h with
  | error e hleft => exact ⟨.cons (.error _ _ e) .nil, hleft⟩
  | ok resume hbody hleft =>
    cases resume with
    | none => exact ⟨.cons (.method _ _ signature hbody) .nil, hleft⟩
    | some index =>
      obtain ⟨hentries, hleft⟩ := hbehind rfl hleft
      exact ⟨.cons (.method _ _ signature hbody) hentries, hleft⟩

/-- The entries of a logical line are the same but for idle lines in the bodies of methods. -/
theorem ofTokens_spaced (h : Spaced shut bound rest rest') (hwritten : Lexed.EndsWritten tokens)
    (hshut : ∀ {entries signature}, MethodLast number tokens entries signature →
      ∀ opening ∈ rest.head?, Body.opensWithBrace opening = true → shut opening.number)
    (number' : Nat) :
    ReadAlike shut (ofTokens number tokens rest) (ofTokens number' tokens rest') := by
  induction hlength : tokens.length using Nat.strongRecOn generalizing tokens rest rest' bound with
  | ind length ih =>
    have hshorter {token : Token} {tokens others : List Token}
        (hlength : (token :: tokens).length = length) (hothers : others <:+ tokens) :
        others.length < length := hlength ▸ Nat.lt_succ_of_le hothers.length_le
    have hends {token : Token} {tokens others : List Token}
        (hwritten : Lexed.EndsWritten (token :: tokens)) (hothers : others <:+ tokens) :
        Lexed.EndsWritten others := hwritten.suffix (hothers.trans (List.suffix_cons token tokens))
    cases front tokens with
    | done =>
      rw [ofTokens, ofTokens]
      exact ⟨.nil, h.free⟩
    | @empty _ tokens hread =>
      have hsame := List.suffix_refl tokens
      rw [ofTokens_empty hread, ofTokens_empty hread]
      exact ih _ (hshorter hlength hsame) h (hends hwritten hsame)
        (fun hheader => hshut (.empty hread hheader)) rfl
    | @field _ tokens _ n type name hread hfield =>
      have hdrop := List.drop_suffix n tokens
      rw [ofTokens_field hread hfield, ofTokens_field hread hfield]
      obtain ⟨hentries, hleft⟩ := ih _ (hshorter hlength hdrop) h (hends hwritten hdrop)
        (fun hheader => hshut (.field hread hfield hheader)) rfl
      exact ⟨.cons (.field _ _ type name) hentries, hleft⟩
    | @method _ tokens _ n signature hread hmethod =>
      have hdrop := List.drop_suffix n tokens
      rw [ofTokens_method hread hmethod, ofTokens_method hread hmethod]
      refine afterBody_spaced signature number number' (Body.capture_taken h (hends hwritten hdrop)
        (fun hend => hshut (.method hread hmethod hend)) signature.name number number') ?_
      intro body index left left' hcapture hleft
      have hinside := Body.capture_inside hcapture
      obtain rfl := (hinside []).1
      have hlater := (List.drop_suffix index (tokens.drop n)).trans hdrop
      exact ih _ (hshorter hlength hlater) hleft (hends hwritten hlater)
        (fun hheader => hshut (.declared hread hmethod (fun rest => (hinside rest).2) hheader)) rfl
    | unread hread hparse =>
      rw [ofTokens_unread hread hparse, ofTokens_unread hread hparse]
      exact ⟨.cons (.error _ _ _) .nil, h.free⟩
    | misplaced hread hparse hfield hmethod =>
      rw [ofTokens_misplaced hread hparse hfield hmethod,
        ofTokens_misplaced hread hparse hfield hmethod]
      exact ⟨.cons (.error _ _ _) .nil, h.free⟩
    | @stray _ tokens _ n hread hclause =>
      have hdrop := List.drop_suffix n tokens
      rw [ofTokens_stray hread hclause, ofTokens_stray hread hclause]
      obtain ⟨hentries, hleft⟩ := ih _ (hshorter hlength hdrop) h (hends hwritten hdrop)
        (fun hheader => hshut (.invalid hread hclause hheader)) rfl
      exact ⟨.cons (.error _ _ _) hentries, hleft⟩

/-- The entries of a logical line are the same but for idle lines in the bodies of methods. -/
theorem readLine_spaced {line : SourceLine} (h : Spaced shut line.GoesOn rest rest')
    (hshut : ∀ opening, Hangs .members line rest opening → shut opening.number) (number : Nat) :
    ReadAlike shut (readLine line rest) (readLine ⟨number, line.text⟩ rest') := by
  obtain ⟨htokens, hleft⟩ := h.spliceLine_eq number
  unfold readLine
  generalize spliceLine ⟨number, line.text⟩ rest' = spliced' at htokens hleft ⊢
  obtain ⟨result', left'⟩ := spliced'
  cases hspliced : spliceLine line rest with
  | mk result left =>
    rw [hspliced] at htokens hleft
    obtain rfl : result' = result := htokens
    cases result' with
    | error e => exact ⟨.cons (.error _ _ e) .nil, hleft⟩
    | ok tokens =>
      obtain ⟨lexemes, hcomposed, hspelled, -⟩ := Body.written_of_spliceLine hspliced
      have hheads {entries : List ClassEntry} {signature : Signature}
          (hheader : MethodLast line.number tokens entries signature) :
          ∀ opening ∈ left.head?, Body.opensWithBrace opening = true → shut opening.number := by
        intro opening hhead hopens
        obtain ⟨after, rfl⟩ := List.head?_eq_some_iff.mp hhead
        exact hshut opening (.method hspliced hheader hopens)
      exact ofTokens_spaced hleft ⟨[], lexemes, hcomposed, hspelled⟩ hheads number

/-- A line that holds nothing makes no entry. -/
theorem ofLines_idle {line : SourceLine} (h : line.isIdle = true) (rest : List SourceLine) :
    ofLines (line :: rest) = ofLines rest := by
  rw [ofLines_cons, readLine, SourceLine.spliceLine_idle h]
  dsimp only
  rw [ofTokens, List.nil_append]

/-- The entries of a class body are the same but for idle lines in the bodies of methods. -/
theorem ofLines_spaced (h : Spaced shut bound lines lines')
    (hshut : ∀ number, HangingBrace .members lines number → shut number) :
    List.Forall₂ (ClassEntry.Alike (Widened shut)) (ofLines lines) (ofLines lines') := by
  induction hlength : lines'.length using Nat.strongRecOn generalizing lines lines' bound with
  | ind length ih =>
    cases h with
    | nil => exact .nil
    | @idle _ line _ rest' hbound hidle hnext hrest =>
      rw [ofLines_idle hidle]
      exact ih rest'.length (by rw [← hlength]; exact Nat.lt_succ_self _) hrest hshut rfl
    | @line _ line rest rest' number hrest =>
      obtain ⟨hline, hleft⟩ := readLine_spaced hrest (fun opening h => hshut _ (.here h)) number
      have hless : (readLine ⟨number, line.text⟩ rest').2.length < length := by
        rw [← hlength, List.length_cons]
        exact Nat.lt_succ_of_le (readLine_lines _ rest').2.length_le
      have hothers := ih _ hless hleft (fun number h => hshut number (.later h)) rfl
      rw [ofLines_cons, ofLines_cons]
      exact List.rel_append hline hothers

end ClassEntry

end BuildScript
