import Mathlib
import BuildScript.Proofs.Body.Extent

/-!
The bodies that can follow a header: on its line, from its line to a later one, or from the next line
on. Where the brace that matches stands decides what is captured, so a header either has a body, or
has one with tokens behind it that is given up, or has none, or its brace is never closed.
-/

namespace BuildScript

open Text (SourceLine)

namespace Body

/-- None of the tokens is a brace that closes what was open before them. -/
def Unclosed (tokens : List Token) : Prop :=
  ∀ inside closing after, tokens = inside ++ closing :: after → Balanced inside →
    closing.isSeparator .braceClose = false

/-- The brace behind a header whose body does not end on the header's line: the number of its line,
the tokens behind it, and the lines after it. -/
inductive Opens (number : Nat) :
    List Token → List SourceLine → Nat → List Token → List SourceLine → Prop
  | here {opening behind rest} (hopen : opening.isSeparator .braceOpen = true)
    (hspans : Unclosed behind) : Opens number (opening :: behind) rest number behind rest
  | next {opening rest lexed} (hopens : opensWithBrace opening = true)
    (hlexed : Lexed.ofLine opening.text = .ok lexed) :
    Opens number [] (opening :: rest) opening.number lexed.tokens.tail rest

/-- The brace that matches the one in front of `behind`, on its line or on a later one. -/
inductive Encloses (number : Nat) (behind : List Token) : List SourceLine → Extent → Prop
  | sameLine {inside closing after rest} (htokens : behind = inside ++ closing :: after)
    (hinside : Balanced inside) (hclose : closing.isSeparator .braceClose = true) :
    Encloses number behind rest ⟨[], [], number, inside, after, rest⟩
  | laterLine {middle last inside closing after more}
    (htokens : braceTokens last.text = inside ++ closing :: after)
    (hinside : Balanced (behind ++ tokensOf middle ++ inside))
    (hclose : closing.isSeparator .braceClose = true) :
    Encloses number behind (middle ++ last :: more)
      ⟨cutLine number behind, middle, last.number, inside, after, more⟩

/-- No body follows the header: neither a brace on its line nor one at the front of the next. -/
def Bodiless : List Token → List SourceLine → Prop
  | [], rest => Unopened rest
  | first :: _, _ => first.isSeparator .braceOpen = false

variable {name : String} {number number' depth : Nat} {tokens behind inside after : List Token}
  {kept rest rest' : List SourceLine} {opening closing : Token} {extent : Extent}

theorem unclosed_iff : Unclosed tokens ↔ ∃ depth, balance 1 tokens = .nested depth := by
  constructor
  · intro h
    cases hbalance : balance 1 tokens with
    | nested depth => exact ⟨depth, rfl⟩
    | closedAt index =>
      obtain ⟨hinside, closing, after, hafter, hclose⟩ := balanced_of_closedAt hbalance
      have hsplit : tokens = tokens.take index ++ closing :: after := by
        rw [← hafter, List.take_append_drop]
      cases hclose.symm.trans (h _ _ _ hsplit hinside)
  · rintro ⟨depth, hnested⟩ inside closing after rfl hinside
    cases hclose : closing.isSeparator .braceClose with
    | false => rfl
    | true => cases hnested.symm.trans (hinside.closedAt hclose)

/-- Lines that do not close what is open are all taken, for nothing. -/
theorem captureLines_unclosed {last : Nat} (h : balance depth (tokensOf rest) = .nested last) :
    captureLines name depth kept rest = (.error (.unterminatedBody name), []) := by
  induction rest generalizing depth kept with
  | nil => rfl
  | cons line rest ih =>
    have hline : tokensOf (line :: rest) = braceTokens line.text ++ tokensOf rest :=
      List.flatMap_cons
    rw [hline, balance_append] at h
    rw [captureLines]
    cases hbalance : balance depth (braceTokens line.text) with
    | closedAt index =>
      rw [hbalance] at h
      cases h
    | nested depth' =>
      rw [hbalance] at h
      dsimp only at h ⊢
      cases hrest : balance depth' (tokensOf rest) with
      | closedAt index =>
        rw [hrest] at h
        cases h
      | nested last' =>
        rw [hrest] at h
        cases h
        exact ih hrest

theorem capture_here (hopen : opening.isSeparator .braceOpen = true)
    (hnested : balance 1 behind = .nested depth) :
    capture name number (opening :: behind) rest =
      captureLines name depth (cutLine number behind) rest := by
  unfold capture
  dsimp only
  rw [if_pos hopen, hnested]

theorem capture_inline (hopen : opening.isSeparator .braceOpen = true) (hinside : Balanced inside)
    (hclose : closing.isSeparator .braceClose = true) :
    capture name number (opening :: (inside ++ closing :: after)) rest =
      (.ok ⟨cutLine number inside, some (inside.length + 2)⟩, rest) := by
  unfold capture
  dsimp only
  rw [if_pos hopen, hinside.closedAt hclose]
  dsimp only
  rw [List.take_left]

theorem capture_bodiless (h : Bodiless tokens rest) :
    capture name number tokens rest = (.error (.expectedBody name), rest) := by
  cases tokens with
  | nil => exact capture_unopened h name number
  | cons first others =>
    unfold capture
    dsimp only
    rw [if_neg (by rw [show first.isSeparator .braceOpen = false from h]; exact Bool.false_ne_true)]

/-- A body that ends is captured up to the brace that matches. -/
theorem capture_encloses (hopens : Opens number tokens rest number' behind rest')
    (h : Encloses number' behind rest' extent) :
    capture name number tokens rest = extent.captured := by
  cases hopens with
  | @here opening behind rest hopen hspans =>
    obtain ⟨depth, hnested⟩ := unclosed_iff.mp hspans
    rw [capture_here hopen hnested]
    cases h with
    | sameLine htokens hinside hclose =>
      cases hclose.symm.trans (hspans _ _ _ htokens hinside)
    | @laterLine middle last inside closing after more htokens hinside hclose =>
      have hcount : balance 1 (behind ++ tokensOf middle ++ inside ++ closing :: after) = _ :=
        hinside.closedAt hclose
      rw [List.append_assoc, ← htokens, List.append_assoc, List.length_append,
        List.length_append, Nat.add_assoc] at hcount
      obtain ⟨depth', hnested', hlater⟩ := balance_front hcount
      cases hnested.symm.trans hnested'
      rw [captureLines_closed hlater, htokens, List.take_left, List.append_cons inside closing after,
        List.drop_left' (by simp)]
      rfl
  | @next opening rest lexed hopens hlexed =>
    have htail : (braceTokens opening.text).tail = lexed.tokens.tail := by
      rw [braceTokens, hlexed]
    have hfirst : keptFirst opening = cutLine opening.number lexed.tokens.tail := by
      rw [keptFirst, hlexed]
    refine capture_matched hopens ⟨lexed, hlexed⟩ ?_
    cases h with
    | sameLine htokens hinside hclose => exact .sameLine (htail.trans htokens) hinside hclose
    | laterLine htokens hinside hclose =>
      rw [← hfirst]
      rw [← htail] at hinside
      exact .laterLine htokens hinside hclose

theorem capture_unclosed (hopens : Opens number tokens rest number' behind rest')
    (h : Unclosed (behind ++ tokensOf rest')) :
    capture name number tokens rest = (.error (.unterminatedBody name), []) := by
  obtain ⟨last, hlast⟩ := unclosed_iff.mp h
  obtain ⟨depth, hnested, hrest⟩ : ∃ depth, balance 1 behind = .nested depth ∧
      ∃ last, balance depth (tokensOf rest') = .nested last := by
    rw [balance_append] at hlast
    cases hbehind : balance 1 behind with
    | closedAt index =>
      rw [hbehind] at hlast
      cases hlast
    | nested depth =>
      rw [hbehind] at hlast
      dsimp only at hlast
      refine ⟨depth, rfl, ?_⟩
      cases hrest : balance depth (tokensOf rest') with
      | closedAt index =>
        rw [hrest] at hlast
        cases hlast
      | nested last => exact ⟨last, rfl⟩
  obtain ⟨last, hrest⟩ := hrest
  cases hopens with
  | here hopen hspans =>
    rw [capture_here hopen hnested]
    exact captureLines_unclosed hrest
  | @next opening rest lexed hopens hlexed =>
    obtain ⟨brace, others, htokens, hopen⟩ := opens_of_opensWithBrace hopens hlexed
    rw [htokens, List.tail_cons] at hnested
    rw [capture_opened hopens, openedBy, braceTokens, hlexed]
    dsimp only
    rw [htokens, balance_open hopen, hnested]
    exact captureLines_unclosed hrest

/-- What follows a header is no body, a body on its line, or the opening of a longer one. -/
theorem bodiless_or_opens (number : Nat) (tokens : List Token)
    (hlexes : ∀ line ∈ rest, ∃ lexed, Lexed.ofLine line.text = .ok lexed) :
    Bodiless tokens rest ∨
      (∃ opening inside closing after, tokens = opening :: (inside ++ closing :: after) ∧
        opening.isSeparator .braceOpen = true ∧ Balanced inside ∧
        closing.isSeparator .braceClose = true) ∨
      ∃ number' behind rest', Opens number tokens rest number' behind rest' := by
  cases tokens with
  | nil =>
    cases rest with
    | nil => exact .inl nofun
    | cons opening rest =>
      cases hopens : opensWithBrace opening with
      | false =>
        left
        rintro _ ⟨⟩
        exact hopens
      | true =>
        obtain ⟨lexed, hlexed⟩ := hlexes opening List.mem_cons_self
        exact .inr (.inr ⟨_, _, _, .next hopens hlexed⟩)
  | cons first behind =>
    cases hopen : first.isSeparator .braceOpen with
    | false => exact .inl hopen
    | true =>
      by_cases hspans : Unclosed behind
      · exact .inr (.inr ⟨_, _, _, .here hopen hspans⟩)
      · unfold Unclosed at hspans
        push Not at hspans
        obtain ⟨inside, closing, after, rfl, hinside, hclose⟩ := hspans
        exact .inr (.inl ⟨first, inside, closing, after, rfl, hopen, hinside,
          Bool.not_eq_false _ ▸ hclose⟩)

/-- The place of a token of some lines. -/
theorem exists_line_of_lt {index : Nat} (h : index < (tokensOf rest).length) :
    ∃ middle last more place, rest = middle ++ last :: more ∧
      index = (tokensOf middle).length + place ∧ place < (braceTokens last.text).length := by
  induction rest generalizing index with
  | nil => exact absurd h (Nat.not_lt_zero _)
  | cons line rest ih =>
    have hline : tokensOf (line :: rest) = braceTokens line.text ++ tokensOf rest :=
      List.flatMap_cons
    rcases Nat.lt_or_ge index (braceTokens line.text).length with hhere | hlater
    · exact ⟨[], line, rest, index, rfl, (Nat.zero_add _).symm, hhere⟩
    · rw [hline, List.length_append] at h
      obtain ⟨middle, last, more, place, rfl, hindex, hplace⟩ :=
        @ih (index - (braceTokens line.text).length) (by omega)
      refine ⟨line :: middle, last, more, place, rfl, ?_, hplace⟩
      have hmiddle : tokensOf (line :: middle) = braceTokens line.text ++ tokensOf middle :=
        List.flatMap_cons
      rw [hmiddle, List.length_append]
      omega

/-- A brace is matched on some line or on none. -/
theorem encloses_or_unclosed (number : Nat) (behind : List Token) (rest : List SourceLine) :
    (∃ extent, Encloses number behind rest extent) ∨ Unclosed (behind ++ tokensOf rest) := by
  cases hbalance : balance 1 (behind ++ tokensOf rest) with
  | nested depth => exact .inr (unclosed_iff.mpr ⟨depth, hbalance⟩)
  | closedAt index =>
    left
    obtain ⟨hinside, closing, after, hafter, hclose⟩ := balanced_of_closedAt hbalance
    have hlt := balance_lt hbalance
    rw [List.length_append] at hlt
    rcases Nat.lt_or_ge index behind.length with hhere | hlater
    · rw [List.take_append_of_le_length (Nat.le_of_lt hhere)] at hinside
      rw [List.drop_append_of_le_length (Nat.le_of_lt hhere)] at hafter
      obtain ⟨first, others, hdrop⟩ : ∃ first others, behind.drop index = first :: others :=
        List.exists_cons_of_ne_nil (by simpa using hhere)
      rw [hdrop] at hafter
      obtain ⟨rfl, -⟩ := List.cons.inj hafter
      exact ⟨_, .sameLine (by rw [← hdrop, List.take_append_drop]) hinside hclose⟩
    · obtain ⟨middle, last, more, place, rfl, hindex, hplace⟩ :=
        @exists_line_of_lt rest (index - behind.length) (by omega)
      have hrest : tokensOf (middle ++ last :: more) =
          tokensOf middle ++ (braceTokens last.text ++ tokensOf more) := by
        simp [tokensOf]
      have hsplit : index = (behind ++ tokensOf middle).length + place := by
        rw [List.length_append]
        omega
      rw [hrest, ← List.append_assoc, hsplit] at hinside hafter
      rw [List.take_length_add_append, List.take_append_of_le_length (Nat.le_of_lt hplace)]
        at hinside
      rw [List.drop_length_add_append, List.drop_append_of_le_length (Nat.le_of_lt hplace)]
        at hafter
      obtain ⟨first, others, hdrop⟩ : ∃ first others,
          (braceTokens last.text).drop place = first :: others :=
        List.exists_cons_of_ne_nil (by simpa using hplace)
      rw [hdrop] at hafter
      obtain ⟨rfl, -⟩ := List.cons.inj hafter
      exact ⟨_, .laterLine (by rw [← hdrop, List.take_append_drop]) hinside hclose⟩

end Body

end BuildScript
