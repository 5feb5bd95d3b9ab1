import Mathlib
import BuildScript.Proofs.Body.Capture
import BuildScript.Proofs.Script.Splicing

/-!
Where a body ends. The brace at the front of the line after a header is matched by counting the
braces of the lines that lex. If the line with the brace lexes, the body ends there: the surrounding
lines go on behind it, and a line in between that does not lex is kept for when the body runs. A line
that opens a body and does not lex is dropped with its brace, and the count starts one too low.
-/

namespace BuildScript

open Text (SourceLine)

namespace Body

/-- What is kept of the line that opens a body on whose further lines it closes. -/
def keptFirst (opening : SourceLine) : List SourceLine :=
  match Lexed.ofLine opening.text with
  | .ok lexed => cutLine opening.number lexed.tokens.tail
  | .error _ => [opening]

/-- A body as it stands in a text: what is kept of its first line, the lines kept whole, the number
of its last line and the tokens before and after the closing brace there, and the lines behind it. -/
structure Extent where
  first : List SourceLine
  middle : List SourceLine
  number : Nat
  inside : List Token
  after : List Token
  more : List SourceLine

namespace Extent

def lines (extent : Extent) : List SourceLine :=
  extent.first ++ extent.middle ++ cutLine extent.number extent.inside

def captured (extent : Extent) : Except SyntaxError Captured × List SourceLine :=
  (close (extent.first ++ extent.middle) extent.number extent.inside extent.after, extent.more)

/-- The lines of the body, if nothing follows the closing brace. -/
def body (extent : Extent) : Except SyntaxError (List SourceLine) :=
  extent.captured.1.map Captured.lines

end Extent

/-- The brace at the front of a line, and the one that matches it in the lines that lex. -/
inductive Matches (opening : SourceLine) : List SourceLine → Extent → Prop
  | sameLine {inside closing after rest}
    (htokens : (braceTokens opening.text).tail = inside ++ closing :: after)
    (hinside : Balanced inside) (hclose : closing.isSeparator .braceClose = true) :
    Matches opening rest ⟨[], [], opening.number, inside, after, rest⟩
  | laterLine {middle last inside closing after more}
    (htokens : braceTokens last.text = inside ++ closing :: after)
    (hinside : Balanced ((braceTokens opening.text).tail ++ tokensOf middle ++ inside))
    (hclose : closing.isSeparator .braceClose = true) :
    Matches opening (middle ++ last :: more)
      ⟨keptFirst opening, middle, last.number, inside, after, more⟩

variable {name : String} {number depth index : Nat} {tokens : List Token}
  {kept middle more rest : List SourceLine} {opening last : SourceLine} {extent : Extent}

theorem tokensOf_eq (lines : List SourceLine) :
    tokensOf lines = lines.flatMap (·.lexed.tokens) := by
  simp only [tokensOf, braceTokens_eq]

theorem Extent.body_of_closed (h : extent.after = []) : extent.body = .ok extent.lines := by
  rw [Extent.body, Extent.captured, h]
  rfl

/-- No line that does not lex is missing. -/
theorem Matches.keeps {bad : SourceLine} {e : SyntaxError} (h : Matches opening rest extent)
    (hbad : bad ∈ opening :: extent.middle) (herror : Lexed.ofLine bad.text = .error e) :
    bad ∈ extent.lines := by
  rcases List.mem_cons.mp hbad with rfl | hmiddle
  · cases h with
    | sameLine htokens => simp [braceTokens, herror] at htokens
    | laterLine =>
      have hfirst : keptFirst bad = [bad] := by rw [keptFirst, herror]
      simp [Extent.lines, hfirst]
  · exact List.mem_append_left _ (List.mem_append_right _ hmiddle)

/-- Lines are taken up to the one on which the count stops. -/
theorem captureLines_closed
    (h : balance depth (tokensOf middle ++ braceTokens last.text) =
      .closedAt ((tokensOf middle).length + index)) :
    captureLines name depth kept (middle ++ last :: more) =
      (close (kept ++ middle) last.number ((braceTokens last.text).take index)
        ((braceTokens last.text).drop (index + 1)), more) := by
  induction middle generalizing depth kept with
  | nil =>
    have hlast : balance depth (braceTokens last.text) = .closedAt index := by
      simpa [tokensOf] using h
    rw [List.nil_append, List.append_nil, captureLines, hlast]
  | cons line middle ih =>
    have hline : tokensOf (line :: middle) = braceTokens line.text ++ tokensOf middle :=
      List.flatMap_cons
    rw [hline, List.append_assoc, List.length_append, Nat.add_assoc] at h
    obtain ⟨depth', hnested, hlater⟩ := balance_front h
    rw [List.cons_append, captureLines, hnested]
    show captureLines name depth' (kept ++ [line]) (middle ++ last :: more) = _
    rw [ih hlater, List.append_assoc, List.singleton_append]

/-- A body whose first line lexes is captured up to the matching brace. -/
theorem capture_matched (hopens : opensWithBrace opening = true)
    (hlexes : ∃ lexed, Lexed.ofLine opening.text = .ok lexed) (h : Matches opening rest extent) :
    capture name number [] (opening :: rest) = extent.captured := by
  obtain ⟨lexed, hlexed⟩ := hlexes
  obtain ⟨brace, behind, htokens, hopen⟩ := opens_of_opensWithBrace hopens hlexed
  have hbrace : braceTokens opening.text = brace :: behind := by
    rw [braceTokens, hlexed]
    exact htokens
  rw [capture_opened hopens, openedBy, hbrace, balance_open hopen]
  cases h with
  | @sameLine inside closing after rest hinner hinside hclose =>
    obtain rfl : behind = inside ++ closing :: after := by simpa [hbrace] using hinner
    rw [hinside.closedAt hclose]
    dsimp only [Balance.shift]
    rw [List.take_succ_cons, List.tail_cons, List.take_left, List.drop_succ_cons,
      List.append_cons inside closing after, List.drop_left' (by simp)]
    rfl
  | @laterLine middle last inside closing after more hlast hinside hclose =>
    rw [hbrace, List.tail_cons] at hinside
    have hclosed : balance 1 (behind ++ (tokensOf middle ++ braceTokens last.text)) =
        .closedAt (behind.length + ((tokensOf middle).length + inside.length)) := by
      have hcount : balance 1 (behind ++ tokensOf middle ++ inside ++ closing :: after) = _ :=
        hinside.closedAt hclose
      rw [hlast, ← List.append_assoc, ← List.append_assoc, hcount]
      simp
    obtain ⟨depth', hnested, hlater⟩ := balance_front hclosed
    have hkept : keptFirst opening = cutLine opening.number behind := by
      rw [keptFirst, hlexed]
      exact congrArg (fun tokens => cutLine opening.number (List.tail tokens)) htokens
    rw [hnested]
    dsimp only [Balance.shift]
    rw [captureLines_closed hlater, hlast, List.take_left, List.append_cons inside closing after,
      List.drop_left' (by simp), Extent.captured, hkept]
    rfl

theorem length_cutLine (number : Nat) (tokens : List Token) :
    (cutLine number tokens).length ≤ 1 ∧ (tokens = [] → (cutLine number tokens).length = 0) ∧
      (tokens ≠ [] → (cutLine number tokens).length = 1) := by
  cases tokens with
  | nil => exact ⟨Nat.zero_le 1, fun _ => rfl, fun hne => absurd rfl hne⟩
  | cons token tokens => exact ⟨Nat.le_refl 1, nofun, fun _ => rfl⟩

/-- A first line that does not lex is not kept. -/
theorem capture_unlexed {e : SyntaxError} (hopens : opensWithBrace opening = true)
    (herror : Lexed.ofLine opening.text = .error e) (h : Matches opening rest extent)
    (hafter : extent.after = []) :
    capture name number [] (opening :: rest) ≠ extent.captured := by
  have hnone : braceTokens opening.text = [] := by rw [braceTokens, herror]
  cases h with
  | sameLine htokens => simp [hnone] at htokens
  | @laterLine middle last inside closing after more hlast hinside hclose =>
    obtain rfl : after = [] := hafter
    intro hcapture
    have hfirst : keptFirst opening = [opening] := by rw [keptFirst, herror]
    have hlines : captureLines name 0 [] (middle ++ last :: more) =
        (.ok ⟨[opening] ++ middle ++ cutLine last.number inside, none⟩, more) := by
      rw [capture_opened hopens, openedBy, hnone, Extent.captured, hfirst] at hcapture
      exact hcapture
    obtain ⟨middle', last', index, hsame, hclosed, hkept⟩ := captureLines_eq_ok hlines
    have hlength : middle.length = middle'.length := by simpa using congrArg List.length hsame
    obtain ⟨rfl, hrest⟩ := List.append_inj hsame hlength
    obtain ⟨rfl, -⟩ := List.cons.inj hrest
    -- So many lines are kept only if the last one is cut later than before its first brace.
    have hcount := congrArg List.length hkept
    rw [List.nil_append, List.append_assoc, List.length_append, List.length_append,
      List.length_append, List.length_singleton] at hcount
    have hcut := (length_cutLine last.number inside).2
    have hcut' := length_cutLine last.number (last.lexed.tokens.take index)
    obtain rfl : inside = [] := by
      by_contra hne
      have := hcut.2 hne
      omega
    have hindex : index ≠ 0 := by
      rintro rfl
      have := hcut'.2.1 rfl
      omega
    rw [hnone, List.tail_nil, List.nil_append] at hinside
    have hone : balance 1 (tokensOf middle ++ [] ++ closing :: []) = _ := hinside.closedAt hclose
    rw [List.append_assoc, ← hlast, List.append_nil] at hone
    obtain ⟨index', hle, hzero⟩ := balance_mono (Nat.zero_le 1) hone
    rw [tokensOf_eq, braceTokens_eq, hclosed] at hzero
    have hsooner := Balance.closedAt.inj hzero
    rw [tokensOf_eq] at hle
    omega

end Body

end BuildScript
