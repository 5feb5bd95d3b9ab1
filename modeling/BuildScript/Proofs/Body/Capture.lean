import BuildScript.Proofs.Body.Braces
import BuildScript.Proofs.Body.Logical
import BuildScript.Proofs.Token.Composing

/-!
What is captured. The lines of a body are read from the brace that opens it up to the one that
matches, wherever the two stand; there is only one such brace. The first line is cut, the last is cut
so that it says what it said, and those in between are kept.
-/

namespace BuildScript

open Text (SourceLine)
open Lexed (Written CanBegin)

def LexedLine.tokens : LexedLine → List Token
  | .ok lexed => lexed.tokens
  | .error _ => []

namespace Body

theorem braceTokens_eq (line : SourceLine) : braceTokens line.text = line.lexed.tokens := by
  unfold braceTokens SourceLine.lexed
  cases Lexed.ofLine line.text <;> rfl

/-- The lines between a brace that opens at the front of the first line and the one that matches it,
the first line apart from the others. -/
inductive Between : List LexedLine → Lexed → List LexedLine → Prop
  | sameLine {opening inside closing after continuation rest}
    (hopen : opening.isSeparator .braceOpen = true) (hinside : Balanced inside)
    (hclose : closing.isSeparator .braceClose = true) :
    Between (.ok ⟨opening :: (inside ++ closing :: after), continuation⟩ :: rest) ⟨inside, false⟩ []
  | laterLine {opening first continuation middle last closing after continuation' rest}
    (hopen : opening.isSeparator .braceOpen = true)
    (hinside : Balanced (first ++ middle.flatMap LexedLine.tokens ++ last))
    (hclose : closing.isSeparator .braceClose = true) :
    Between
      (.ok ⟨opening :: first, continuation⟩ ::
        (middle ++ .ok ⟨last ++ closing :: after, continuation'⟩ :: rest))
      ⟨first, continuation⟩ (middle ++ [.ok ⟨last, false⟩])

variable {whole region region' : List LexedLine} {first first' : Lexed}

/-- A line on which the brace is closed is not passed over. -/
theorem Balanced.not_passed {first last after last' : List Token} {closing : Token}
    {middle more : List LexedLine} {continuation : Bool}
    (hinside : Balanced (first ++ middle.flatMap LexedLine.tokens ++ last))
    (hclose : closing.isSeparator .braceClose = true) :
    ¬Balanced (first ++ (middle ++ .ok ⟨last ++ closing :: after, continuation⟩ :: more).flatMap
      LexedLine.tokens ++ last') := by
  intro hlonger
  have hextended : Balanced (first ++ middle.flatMap LexedLine.tokens ++ last ++
      closing :: (after ++ more.flatMap LexedLine.tokens ++ last')) := by
    simpa [LexedLine.tokens] using hlonger
  exact hinside.not_extends hclose hextended

/-- The brace that matches is the only one that does. -/
theorem Between.unique (h : Between whole first region) (h' : Between whole first' region') :
    first = first' ∧ region = region' := by
  cases h with
  | @sameLine opening inside closing after continuation rest hopen hinside hclose =>
    generalize hfront : opening :: (inside ++ closing :: after) = tokens at h'
    cases h' with
    | sameLine hopen' hinside' hclose' =>
      obtain rfl := hinside.unique hinside' hclose hclose' (List.cons.inj hfront).2
      exact ⟨rfl, rfl⟩
    | laterLine hopen' hinside' hclose' =>
      rw [← (List.cons.inj hfront).2, List.append_assoc, List.append_assoc] at hinside'
      exact absurd hinside' (hinside.not_extends hclose)
  | @laterLine opening first continuation middle last closing after continuation' rest hopen hinside
      hclose =>
    generalize hfront : opening :: first = tokens at h'
    generalize hlines : middle ++ .ok ⟨last ++ closing :: after, continuation'⟩ :: rest =
      lines at h'
    cases h' with
    | sameLine hopen' hinside' hclose' =>
      rw [(List.cons.inj hfront).2, List.append_assoc, List.append_assoc] at hinside
      exact absurd hinside (hinside'.not_extends hclose')
    | @laterLine opening' first' continuation middle' last' closing' after' continuation'' rest'
        hopen' hinside' hclose' =>
      obtain ⟨-, rfl⟩ := List.cons.inj hfront
      obtain rfl : middle = middle' := by
        rcases List.append_eq_append_iff.mp hlines with ⟨more, rfl, hrest⟩ | ⟨more, rfl, hrest⟩
        · cases more with
          | nil => exact (List.append_nil middle).symm
          | cons line more =>
            obtain ⟨rfl, -⟩ := List.cons.inj hrest
            exact absurd hinside' (hinside.not_passed hclose)
        · cases more with
          | nil => exact List.append_nil middle'
          | cons line more =>
            obtain ⟨rfl, -⟩ := List.cons.inj hrest
            exact absurd hinside (hinside'.not_passed hclose')
      have hline : last ++ closing :: after = last' ++ closing' :: after' :=
        congrArg Lexed.tokens (Except.ok.inj (List.cons.inj (List.append_cancel_left hlines)).1)
      have hsame : first ++ middle.flatMap LexedLine.tokens ++ last ++ closing :: after =
          first ++ middle.flatMap LexedLine.tokens ++ last' ++ closing' :: after' := by
        rw [List.append_assoc, hline, ← List.append_assoc]
      obtain rfl : last = last' :=
        List.append_cancel_left (hinside.unique hinside' hclose hclose' hsame)
      exact ⟨rfl, rfl⟩

variable {name : String} {number depth index : Nat} {tokens others : List Token}
  {kept lines rest : List SourceLine} {line : SourceLine} {captured : Captured}

theorem close_eq_ok {after : List Token} (h : close lines number tokens after = .ok captured) :
    after = [] ∧ captured = ⟨lines ++ cutLine number tokens, none⟩ := by
  cases after with
  | nil => exact ⟨rfl, (Except.ok.inj h).symm⟩
  | cons token after => cases h

/-- Whole lines are taken until the braces balance, and the last is cut there. -/
theorem captureLines_eq_ok (h : captureLines name depth kept lines = (.ok captured, rest)) :
    ∃ middle last index, lines = middle ++ last :: rest ∧
      balance depth (middle.flatMap (·.lexed.tokens) ++ last.lexed.tokens) =
        .closedAt ((middle.flatMap (·.lexed.tokens)).length + index) ∧
      captured.lines = kept ++ middle ++ cutLine last.number (last.lexed.tokens.take index) := by
  induction lines generalizing depth kept with
  | nil => cases h
  | cons line lines ih =>
    unfold captureLines at h
    rw [braceTokens_eq] at h
    dsimp only at h
    cases hbalance : balance depth line.lexed.tokens with
    | closedAt index =>
      rw [hbalance] at h
      obtain ⟨hclose, rfl⟩ := Prod.mk.inj h
      obtain ⟨-, rfl⟩ := close_eq_ok hclose
      refine ⟨[], line, index, rfl, ?_, ?_⟩
      · rw [List.flatMap_nil, List.nil_append, hbalance, List.length_nil, Nat.zero_add]
      · rw [List.append_nil]
    | nested depth' =>
      rw [hbalance] at h
      obtain ⟨middle, last, index, rfl, hclosed, hlines⟩ := ih h
      refine ⟨line :: middle, last, index, rfl, ?_, ?_⟩
      · rw [List.flatMap_cons, List.append_assoc, balance_append, hbalance]
        dsimp only
        rw [hclosed, Balance.shift, List.length_append]
        congr 1
        omega
      · rw [hlines, List.append_cons kept line middle]

theorem content_spaceFirst (tokens : List Token) :
    LogicalLine.content (.ok (Token.spaceFirst tokens)) = LogicalLine.content (.ok tokens) := by
  cases tokens <;> rfl

/-- What is kept of the last line says what is in front of the brace there. -/
theorem similar_cutLine (h : Written tokens) (hbegin : CanBegin tokens) :
    Similar (joined ((cutLine number tokens).map SourceLine.lexed))
      (joined [.ok ⟨tokens, false⟩]) := by
  cases tokens with
  | nil => exact .empty
  | cons token tokens =>
    have hlexed : SourceLine.lexed ⟨number, Token.render (token :: tokens)⟩ = _ :=
      h.read_back hbegin
    rw [cutLine, if_neg (by simp), List.map_singleton, hlexed]
    exact .cons (content_spaceFirst (token :: tokens)) .nil

/-- What was captured is the first line, cut, and lines that say what the others do. -/
def Captured.Keeps (captured : Captured) (first : Lexed) (region : List LexedLine) : Prop :=
  ∃ number tail, captured.lines = cutLine number first.tokens ++ tail ∧
    Similar (joined (tail.map SourceLine.lexed)) (joined region)

theorem between_of_closedAt {opening : Token} {continuation : Bool} {more : List LexedLine}
    (hopen : opening.isSeparator .braceOpen = true) (h : balance 1 others = .closedAt index) :
    Between (.ok ⟨opening :: others, continuation⟩ :: more) ⟨others.take index, false⟩ [] := by
  obtain ⟨hinside, closing, after, hafter, hclose⟩ := balanced_of_closedAt h
  have hbetween : Between
      (.ok ⟨opening :: (others.take index ++ closing :: after), continuation⟩ :: more)
      ⟨others.take index, false⟩ [] := .sameLine hopen hinside hclose
  rwa [← hafter, List.take_append_drop] at hbetween

/-- The lines taken are those up to the brace that matches. -/
theorem between_of_captureLines {opening : Token} {continuation : Bool}
    (hopen : opening.isSeparator .braceOpen = true) (hnested : balance 1 others = .nested depth)
    (h : captureLines name depth (cutLine number others) lines = (.ok captured, rest)) :
    ∃ region, Between (.ok ⟨opening :: others, continuation⟩ :: lines.map SourceLine.lexed)
      ⟨others, continuation⟩ region ∧ captured.Keeps ⟨others, continuation⟩ region := by
  obtain ⟨middle, last, index, rfl, hclosed, hlines⟩ := captureLines_eq_ok h
  have hcount : balance 1 (others ++ (middle.flatMap (·.lexed.tokens) ++ last.lexed.tokens)) =
      .closedAt (others.length + ((middle.flatMap (·.lexed.tokens)).length + index)) := by
    rw [balance_append, hnested]
    dsimp only
    rw [hclosed, Balance.shift, Nat.add_comm]
  obtain ⟨hinside, closing, after, hafter, hclose⟩ := balanced_of_closedAt hcount
  rw [List.take_length_add_append, List.take_length_add_append, ← List.append_assoc] at hinside
  rw [List.drop_length_add_append, List.drop_length_add_append] at hafter
  cases hlast : last.lexed with
  | error e =>
    rw [hlast] at hafter
    cases hafter.symm.trans List.drop_nil
  | ok lexed =>
    obtain ⟨tokens, continuation'⟩ := lexed
    rw [hlast] at hinside hafter hlines
    dsimp only [LexedLine.tokens] at hinside hafter hlines
    generalize hcut : tokens.take index = cut at hinside hlines
    obtain rfl : tokens = cut ++ closing :: after := by
      rw [← hcut, ← hafter, List.take_append_drop]
    obtain ⟨⟨lexemes, hcomposed, hspelled, -⟩, hbegin⟩ := Lexed.written_of_ofLine hlast
    have hwritten : Written (cut ++ closing :: after) := ⟨lexemes, hcomposed, hspelled⟩
    refine ⟨middle.map SourceLine.lexed ++ [.ok ⟨cut, false⟩], ?_, number,
      middle ++ cutLine last.number cut, ?_, ?_⟩
    · rw [List.map_append, List.map_cons, hlast]
      exact .laterLine hopen (by rwa [List.flatMap_map]) hclose
    · rw [hlines, List.append_assoc]
    · rw [List.map_append]
      have hcutWritten : Written cut := (hwritten.split (.of_isSeparator hclose)).1
      exact (similar_cutLine hcutWritten hbegin.left).joined_append _

/-- The lines a body is read from: what follows the header on its line, if anything does, and the
lines after it. -/
def source (tokens : List Token) (rest : List SourceLine) : List LexedLine :=
  match tokens with
  | [] => rest.map SourceLine.lexed
  | _ :: _ => .ok ⟨tokens, false⟩ :: rest.map SourceLine.lexed

/-- The body opens right after the header. -/
theorem between_of_header {opening : Token} {rest' : List SourceLine}
    (h : capture name number (opening :: others) rest = (.ok captured, rest')) :
    ∃ first region, Between (source (opening :: others) rest) first region ∧
      captured.Keeps first region := by
  unfold capture at h
  dsimp only at h
  split at h
  · rename_i hopen
    split at h
    · rename_i index hclosed
      cases h
      exact ⟨_, _, between_of_closedAt hopen hclosed, number, [], (List.append_nil _).symm, .nil⟩
    · rename_i depth hnested
      exact ⟨_, between_of_captureLines hopen hnested h⟩
  · cases h

/-- The body opens at the start of the next line. -/
theorem between_of_opening {rest' : List SourceLine} {lexed : Lexed}
    (h : capture name number [] (line :: rest) = (.ok captured, rest'))
    (hlexed : line.lexed = .ok lexed) :
    ∃ first region, Between (source [] (line :: rest)) first region ∧
      captured.Keeps first region := by
  unfold capture at h
  dsimp only at h
  split at h
  · rename_i hopens
    obtain ⟨tokens, continuation⟩ := lexed
    obtain ⟨opening, others, rfl, hopen⟩ := opens_of_opensWithBrace hopens hlexed
    have hcount : balance 0 (opening :: others) = (balance 1 others).shift 1 := balance_open hopen
    rw [braceTokens_eq, hlexed] at h
    dsimp only [LexedLine.tokens] at h
    rw [hcount] at h
    rw [source, List.map_cons, hlexed]
    cases hbalance : balance 1 others with
    | closedAt index =>
      rw [hbalance] at h
      obtain ⟨hclose, -⟩ := Prod.mk.inj h
      obtain ⟨-, rfl⟩ := close_eq_ok hclose
      exact ⟨_, _, between_of_closedAt hopen hbalance, line.number, [], (List.append_nil _).symm,
        .nil⟩
    | nested depth =>
      rw [hbalance] at h
      exact ⟨_, between_of_captureLines hopen hbalance h⟩
  · cases h

/-- A body is captured between matching braces. -/
theorem between_of_capture {rest' : List SourceLine}
    (h : capture name number tokens rest = (.ok captured, rest'))
    (hlexes : tokens = [] → ∀ opening ∈ rest.head?, ∃ lexed, opening.lexed = .ok lexed) :
    ∃ first region, Between (source tokens rest) first region ∧ captured.Keeps first region := by
  cases tokens with
  | cons opening others => exact between_of_header h
  | nil =>
    cases rest with
    | nil => cases h
    | cons line rest =>
      obtain ⟨lexed, hlexed⟩ := hlexes rfl line rfl
      exact between_of_opening h hlexed

end Body

end BuildScript
