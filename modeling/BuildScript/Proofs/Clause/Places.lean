import BuildScript.Proofs.Clause.OnePass
import BuildScript.Token.Lexer

/-!
Places in a line. Which clause a token belongs to, and which of the tokens in front of it, is settled by
the tokens in front of it alone, as long as it neither begins nor ends a clause itself.
-/

namespace BuildScript.Clause

open Lexed (signAfter)

/-- The token begins and ends no clause, and opens and closes nothing. -/
def Plain (token : Token) : Prop :=
  match token.kind with
  | .separator _ | .keyword _ => False
  | _ => True

/-- The clauses that have an expression, and an `if` that no parenthesis follows. -/
inductive Slot where
  | condition
  | giveBack
  | statement
  | missing

namespace Slot

def clause : Slot → List Token → Clause
  | condition, tokens => .condition tokens
  | giveBack, tokens => .giveBack tokens
  | statement, tokens => .statement tokens
  | missing, _ => .malformed .missingCondition

/-- The number of tokens of the clause in front of its expression. -/
def lead : Slot → Nat
  | condition => 2
  | giveBack => 1
  | statement | missing => 0

/-- Those of the tokens that belong to the clause, where so many parentheses and brackets are open. -/
def taken? (slot : Slot) (depth : Nat) (tokens : List Token) : Option (List Token) :=
  match slot with
  | condition => (conditionLength? depth tokens).map tokens.take
  | giveBack | statement => some (tokens.take (statementLength depth tokens))
  | missing => none

end Slot

variable {before front rest after pre : List Token} {token tok : Token} {depth position n : Nat}
  {slot : Slot}

section Lengths

theorem Plain.not_separator (h : Plain tok) (separator : Separator) :
    tok.isSeparator separator = false := by
  refine eq_false_of_ne_true fun hkind => ?_
  rw [Plain, isSeparator_iff.mp hkind] at h
  exact h

theorem Plain.nesting_eq (h : Plain tok) (depth : Nat) : nesting depth tok = depth := by
  unfold nesting
  split <;> first | rfl | simp_all [Plain]

theorem Plain.not_boundary (h : Plain tok) : isBoundary tok = false := by
  unfold isBoundary
  split <;> first | rfl | simp_all [Plain]

theorem Plain.read?_eq (h : Plain tok) (rest : List Token) : read? tok rest =
    some (.statement (tok :: rest.take (statementLength 0 rest)), statementLength 0 rest) := by
  have hnesting := h.nesting_eq 0
  unfold read?
  split <;> simp_all [Plain]

theorem statementLength_le (depth : Nat) (tokens : List Token) :
    statementLength depth tokens ≤ tokens.length := by
  obtain ⟨front, rest, rfl, hlength, -⟩ := statementLength_spec depth tokens
  rw [← hlength, List.length_append]
  exact Nat.le_add_right _ _

/-- A statement that ends among the tokens ends there whatever follows them. -/
theorem statementLength_within (h : statementLength depth front ≠ front.length) (rest : List Token) :
    statementLength depth (front ++ rest) = statementLength depth front := by
  induction front generalizing depth with
  | nil => exact absurd rfl h
  | cons token front ih =>
    rw [List.cons_append, statementLength, statementLength]
    split
    · rfl
    · rename_i hboundary
      rw [statementLength, if_neg hboundary] at h
      rw [ih fun hlength => h (congrArg (· + 1) hlength)]

theorem statementLength_through (h : statementLength depth front = front.length) (htok : Plain tok)
    (after : List Token) : statementLength depth (front ++ tok :: after) =
      front.length + 1 + statementLength (front.foldl nesting depth) after := by
  induction front generalizing depth with
  | nil =>
    rw [List.nil_append, statementLength, htok.not_boundary, Bool.and_false, if_neg Bool.false_ne_true,
      htok.nesting_eq, List.length_nil, Nat.zero_add, Nat.add_comm]
    rfl
  | cons token front ih =>
    rw [statementLength] at h
    split at h
    · cases h
    · rename_i hboundary
      rw [List.cons_append, statementLength, if_neg hboundary, ih (Nat.succ.inj h), List.foldl_cons,
        List.length_cons]
      omega

theorem conditionLength?_within (h : conditionLength? depth front = some n) (rest : List Token) :
    conditionLength? depth (front ++ rest) = some n := by
  fun_induction conditionLength? depth front generalizing n with
  | case1 => cases h
  | case2 depth token front hclose hdepth =>
    rw [List.cons_append, conditionLength?, if_pos hclose, if_pos hdepth]
    exact h
  | case3 depth token front hclose hdepth ih =>
    obtain ⟨n, hn, rfl⟩ := Option.map_eq_some_iff.mp h
    rw [List.cons_append, conditionLength?, if_pos hclose, if_neg hdepth, ih hn]
    rfl
  | case4 depth token front hclose hopen ih =>
    obtain ⟨n, hn, rfl⟩ := Option.map_eq_some_iff.mp h
    rw [List.cons_append, conditionLength?, if_neg hclose, if_pos hopen, ih hn]
    rfl
  | case5 depth token front hclose hopen ih =>
    obtain ⟨n, hn, rfl⟩ := Option.map_eq_some_iff.mp h
    rw [List.cons_append, conditionLength?, if_neg hclose, if_neg hopen, ih hn]
    rfl

theorem conditionLength?_through (h : conditionLength? depth front = none) :
    ∃ depth', ∀ rest, conditionLength? depth (front ++ rest) =
      (conditionLength? depth' rest).map (front.length + ·) := by
  have hshift (count : Nat) (n : Option Nat) :
      (n.map (count + ·)).map (· + 1) = n.map (count + 1 + ·) := by
    cases n with
    | none => rfl
    | some n => exact congrArg some (Nat.add_right_comm _ _ _)
  fun_induction conditionLength? depth front with
  | case1 depth =>
    refine ⟨depth, fun rest => ?_⟩
    cases h : conditionLength? depth rest <;> simp [h]
  | case2 => cases h
  | case3 depth token front hclose hdepth ih =>
    obtain ⟨depth', ih⟩ := ih (Option.map_eq_none_iff.mp h)
    refine ⟨depth', fun rest => ?_⟩
    rw [List.cons_append, conditionLength?, if_pos hclose, if_neg hdepth, ih, hshift, List.length_cons]
  | case4 depth token front hclose hopen ih =>
    obtain ⟨depth', ih⟩ := ih (Option.map_eq_none_iff.mp h)
    refine ⟨depth', fun rest => ?_⟩
    rw [List.cons_append, conditionLength?, if_neg hclose, if_pos hopen, ih, hshift, List.length_cons]
  | case5 depth token front hclose hopen ih =>
    obtain ⟨depth', ih⟩ := ih (Option.map_eq_none_iff.mp h)
    refine ⟨depth', fun rest => ?_⟩
    rw [List.cons_append, conditionLength?, if_neg hclose, if_neg hopen, ih, hshift, List.length_cons]

theorem Plain.conditionLength?_cons (h : Plain tok) (depth : Nat) (rest : List Token) :
    conditionLength? depth (tok :: rest) = (conditionLength? depth rest).map (· + 1) := by
  rw [conditionLength?, h.not_separator, h.not_separator, if_neg Bool.false_ne_true,
    if_neg Bool.false_ne_true]

end Lengths

section Reading

/-- The clause that the token begins is complete before the end of the tokens behind it, whatever
follows them; at their very end an operand may begin, or the clause is a condition. -/
def Completes (token : Token) (rest : List Token) (clause : Clause) (n : Nat) : Prop :=
  n ≤ rest.length ∧ read? token rest = some (clause, n) ∧
    (∀ tok after, Plain tok → read? token (rest ++ tok :: after) = some (clause, n)) ∧
    (n = rest.length → signAfter (token :: rest).getLast? = true ∨
      ∃ inner, clause = .condition inner ∧ n = inner.length + 2)

/-- The tokens end within the clause that the first of them begins: a plain token behind them belongs
to it, unless an `if` keeps it from being read. -/
structure Within (slot : Slot) (pre : List Token) (depth : Nat) (tokens : List Token) : Prop where
  suffix : pre <:+ tokens
  opens : pre = [] → slot ≠ .missing → signAfter tokens.getLast? = true
  reads : ∀ token rest, tokens = token :: rest → ∀ tok after, Plain tok →
    match slot.taken? depth after with
    | some post => slot.lead + pre.length = tokens.length ∧
        ∃ n, read? token (rest ++ tok :: after) = some (slot.clause (pre ++ tok :: post), n)
    | none => ∃ e n, read? token (rest ++ tok :: after) = some (.malformed e, n)

theorem read?_if (hword : token.kind = .keyword .ifWord) (rest : List Token) :
    read? token rest = some (readCondition rest) := by
  unfold read?
  rw [hword]

theorem read?_return (hword : token.kind = .keyword .returnWord) (rest : List Token) :
    read? token rest =
      some (.giveBack (rest.take (statementLength 0 rest)), statementLength 0 rest) := by
  unfold read?
  rw [hword]

theorem within_missing (hword : token.kind = .keyword .ifWord)
    (hrest : ∀ first ∈ rest.head?, first.isSeparator .parenOpen = false) :
    Within .missing [] 0 (token :: rest) := by
  refine ⟨List.nil_suffix, fun _ h => absurd rfl h, ?_⟩
  rintro _ _ ⟨rfl, rfl⟩ tok after htok
  refine ⟨.missingCondition, _, (read?_if hword _).trans (congrArg some (readCondition_missing ?_))⟩
  cases rest with
  | nil =>
    rintro _ ⟨⟩
    exact htok.not_separator _
  | cons first rest => exact hrest

/-- A condition is closed by the parenthesis that closes it, whatever follows, or it is not closed. -/
theorem condition_cases {opening : Token} (hword : token.kind = .keyword .ifWord)
    (hopening : opening.isSeparator .parenOpen = true) (inner : List Token) :
    (∃ clause n, Completes token (opening :: inner) clause n) ∨
      ∃ depth, Within .condition inner depth (token :: opening :: inner) := by
  cases hlength : conditionLength? 0 inner with
  | some n =>
    obtain ⟨front, closing, behind, rfl, rfl, hclosing, -⟩ := conditionLength?_some hlength
    have hread (rest : List Token) : read? token (opening :: (front ++ closing :: behind ++ rest)) =
        some (.condition front, front.length + 2) := by
      rw [read?_if hword, readCondition_open hopening, conditionLength?_within hlength]
      dsimp only
      rw [List.append_assoc, List.take_left]
    refine .inl ⟨.condition front, front.length + 2, ?_, ?_, fun tok after _ => hread (tok :: after),
      fun _ => .inr ⟨front, rfl, rfl⟩⟩
    · simp only [List.length_cons, List.length_append]
      omega
    · have hnil := hread []
      rwa [List.append_nil] at hnil
  | none =>
    obtain ⟨depth, hthrough⟩ := conditionLength?_through hlength
    refine .inr ⟨depth, ⟨[token, opening], rfl⟩, fun hinner _ => ?_, ?_⟩
    · subst hinner
      obtain ⟨kind, text, spaced⟩ := opening
      obtain rfl : kind = .separator .parenOpen := isSeparator_iff.mp hopening
      rfl
    · rintro _ _ ⟨rfl, rfl⟩ tok after htok
      rw [Slot.taken?, List.cons_append, read?_if hword, readCondition_open hopening, hthrough,
        htok.conditionLength?_cons]
      cases conditionLength? depth after with
      | none => exact ⟨_, _, rfl⟩
      | some n =>
        refine ⟨by simp [Slot.lead]; omega, inner.length + (n + 1) + 2, ?_⟩
        simp only [Option.map_some, Slot.clause]
        rw [List.take_length_add_append, List.take_succ_cons]

/-- A clause that takes what a statement takes is complete at a boundary. -/
theorem completes_of_length (clause : List Token → Clause)
    (hread : ∀ rest, read? token rest =
      some (clause (rest.take (statementLength depth rest)), statementLength depth rest))
    (hlength : statementLength depth rest ≠ rest.length) :
    Completes token rest (clause (rest.take (statementLength depth rest)))
      (statementLength depth rest) := by
  have hle := statementLength_le depth rest
  refine ⟨hle, hread rest, fun tok after _ => ?_, fun h => absurd h hlength⟩
  rw [hread, statementLength_within hlength, List.take_append_of_le_length hle]

theorem within_of_length (before pre : List Token) (hread : ∀ rest, read? token rest =
      some (slot.clause (pre ++ rest.take (statementLength depth rest)), statementLength depth rest))
    (hlength : statementLength depth rest = rest.length) (hslot : slot = .giveBack ∨ slot = .statement)
    (hlead : [token] = before ++ pre) (hcount : slot.lead = before.length)
    (hopens : pre = [] → signAfter (some token) = true) :
    Within slot (pre ++ rest) (rest.foldl nesting depth) (token :: rest) := by
  have htokens : token :: rest = before ++ (pre ++ rest) := by
    rw [← List.append_assoc, ← hlead]
    rfl
  refine ⟨⟨before, htokens.symm⟩, fun hnil _ => ?_, ?_⟩
  · obtain ⟨rfl, rfl⟩ := List.append_eq_nil_iff.mp hnil
    exact hopens rfl
  · rintro _ _ ⟨rfl, rfl⟩ tok after htok
    have htaken : slot.taken? (rest.foldl nesting depth) after =
        some (after.take (statementLength (rest.foldl nesting depth) after)) := by
      rcases hslot with rfl | rfl <;> rfl
    rw [htaken]
    have hlengths : slot.lead + (pre ++ rest).length = (token :: rest).length := by
      rw [htokens, hcount]
      exact List.length_append.symm
    refine ⟨hlengths, statementLength depth (rest ++ tok :: after), ?_⟩
    rw [hread, statementLength_through hlength htok, Nat.add_assoc, List.take_length_add_append,
      Nat.add_comm 1, List.take_succ_cons, List.append_assoc]

theorem read?_statement (h : isBoundary token = false) (rest : List Token) : read? token rest =
    some (.statement (token :: rest.take (statementLength (nesting 0 token) rest)),
      statementLength (nesting 0 token) rest) := by
  unfold isBoundary at h
  unfold read?
  split <;> simp_all

theorem boundary_cases (h : isBoundary token = true) : token.kind = .separator .semicolon ∨
    (∃ clause, (∀ rest, read? token rest = some (clause, 0)) ∧ signAfter (some token) = true) ∨
      token.kind = .keyword .ifWord ∨ token.kind = .keyword .returnWord := by
  unfold isBoundary at h
  unfold read? signAfter
  split at h <;> simp_all

theorem completes_alone {clause : Clause} (hread : ∀ rest, read? token rest = some (clause, 0))
    (hsign : signAfter (some token) = true) (rest : List Token) : Completes token rest clause 0 := by
  refine ⟨Nat.zero_le _, hread rest, fun _ _ _ => hread _, fun hnil => ?_⟩
  rw [List.eq_nil_of_length_eq_zero hnil.symm]
  exact .inl hsign

/-- What a first token begins is a semicolon, a clause that is complete, or one that goes on. -/
theorem read?_cases (token : Token) (rest : List Token) : token.kind = .separator .semicolon ∨
    (∃ clause n, Completes token rest clause n) ∨
      ∃ slot pre depth, Within slot pre depth (token :: rest) := by
  by_cases hboundary : isBoundary token = true
  · rcases boundary_cases hboundary with hkind | ⟨clause, halone, hsign⟩ | hkind | hkind
    · exact .inl hkind
    · exact .inr (.inl ⟨clause, 0, completes_alone halone hsign rest⟩)
    · by_cases hopen : ∀ first ∈ rest.head?, first.isSeparator .parenOpen = false
      · exact .inr (.inr ⟨_, _, _, within_missing hkind hopen⟩)
      · obtain ⟨opening, hmem, hopening⟩ : ∃ opening, opening ∈ rest.head? ∧
            opening.isSeparator .parenOpen = true := by simpa using hopen
        obtain ⟨inner, rfl⟩ := List.head?_eq_some_iff.mp hmem
        exact .inr ((condition_cases hkind hopening inner).imp_right fun h => ⟨_, _, h⟩)
    · by_cases hlength : statementLength 0 rest = rest.length
      · have hwithin := within_of_length [token] [] (read?_return hkind) hlength (.inl rfl) rfl rfl
          fun _ => by rw [signAfter, hkind]
        exact .inr (.inr ⟨_, _, _, hwithin⟩)
      · exact .inr (.inl ⟨_, _, completes_of_length _ (read?_return hkind) hlength⟩)
  · have hread := read?_statement (eq_false_of_ne_true hboundary)
    by_cases hlength : statementLength (nesting 0 token) rest = rest.length
    · have hwithin : Within .statement _ _ _ :=
        within_of_length [] [token] hread hlength (.inr rfl) rfl rfl nofun
      exact .inr (.inr ⟨_, _, _, hwithin⟩)
    · exact .inr (.inl ⟨_, _, completes_of_length (.statement <| token :: ·) hread hlength⟩)

end Reading

section Spots

/-- The line ends with a condition. -/
def EndsCondition (tokens : List Token) : Prop :=
  ∃ offset inner, (offset, .condition inner) ∈ split tokens ∧
    offset + width (.condition inner) = tokens.length

/-- The clauses of the first tokens are complete where the second begin. -/
def Skips (front behind : List Token) : Prop :=
  ∃ clauses : Nat → List (Nat × Clause),
    (∀ position, splitFrom position (front ++ behind) =
      clauses position ++ splitFrom (position + front.length) behind) ∧
    ∀ position tok after, Plain tok → splitFrom position (front ++ behind ++ tok :: after) =
      clauses position ++ splitFrom (position + front.length) (behind ++ tok :: after)

/-- Where the reader is behind the tokens: within a clause of which these tokens have been read. A plain
token there belongs to the clause, unless an `if` keeps it from being read. -/
structure Spot (before : List Token) (slot : Slot) (pre : List Token) (depth : Nat) : Prop where
  suffix : pre <:+ before
  opens : pre = [] → slot ≠ .missing → signAfter before.getLast? = true ∨
    ∀ position, ∃ offset inner, (offset, .condition inner) ∈ splitFrom position before ∧
      offset + width (.condition inner) = position + before.length
  reads : ∀ position tok after, Plain tok →
    match slot.taken? depth after with
    | some post => ∃ offset, offset + (slot.lead + pre.length) = position + before.length ∧
        (offset, slot.clause (pre ++ tok :: post)) ∈ splitFrom position (before ++ tok :: after)
    | none => ∃ offset e, offset ≤ position + before.length ∧
        (offset, .malformed e) ∈ splitFrom position (before ++ tok :: after)

theorem spot_nil : Spot [] .statement [] 0 := by
  refine ⟨List.suffix_refl _, fun _ _ => .inl rfl, fun position tok after htok => ⟨position, rfl, ?_⟩⟩
  rw [List.nil_append, splitFrom_some (htok.read?_eq after)]
  exact List.mem_cons_self

theorem spot_within (h : Within slot pre depth (token :: rest)) :
    Spot (token :: rest) slot pre depth := by
  refine ⟨h.suffix, fun hpre hslot => .inl (h.opens hpre hslot), fun position tok after htok => ?_⟩
  have hreads := h.reads token rest rfl tok after htok
  cases htaken : slot.taken? depth after with
  | some post =>
    rw [htaken] at hreads
    obtain ⟨hlength, n, hread⟩ := hreads
    refine ⟨position, congrArg (position + ·) hlength, ?_⟩
    rw [List.cons_append, splitFrom_some hread]
    exact List.mem_cons_self
  | none =>
    rw [htaken] at hreads
    obtain ⟨e, n, hread⟩ := hreads
    refine ⟨position, e, Nat.le_add_right _ _, ?_⟩
    rw [List.cons_append, splitFrom_some hread]
    exact List.mem_cons_self

/-- Clauses in front do not matter. -/
theorem Spot.behind (h : Spot rest slot pre depth) (hskips : Skips front rest)
    (hend : rest = [] → signAfter front.getLast? = true ∨
      ∀ position, ∃ offset inner, (offset, .condition inner) ∈ splitFrom position front ∧
        offset + width (.condition inner) = position + front.length) :
    Spot (front ++ rest) slot pre depth := by
  obtain ⟨clauses, hfront, hthrough⟩ := hskips
  refine ⟨h.suffix.trans (List.suffix_append _ _), fun hpre hslot => ?_,
    fun position tok after htok => ?_⟩
  · cases rest with
    | nil =>
      rw [List.append_nil]
      exact hend rfl
    | cons first rest =>
      rw [List.getLast?_append, List.getLast?_cons, Option.some_or, ← List.getLast?_cons]
      refine (h.opens hpre hslot).imp_right fun hcondition position => ?_
      obtain ⟨offset, inner, hmem, hwidth⟩ := hcondition (position + front.length)
      refine ⟨offset, inner, ?_, by rw [hwidth, List.length_append, Nat.add_assoc]⟩
      rw [hfront]
      exact List.mem_append_right _ hmem
  · have hreads := h.reads (position + front.length) tok after htok
    rw [hthrough position tok after htok, List.length_append, ← Nat.add_assoc]
    cases htaken : slot.taken? depth after with
    | some post =>
      rw [htaken] at hreads
      obtain ⟨offset, hoffset, hmem⟩ := hreads
      exact ⟨offset, hoffset, List.mem_append_right _ hmem⟩
    | none =>
      rw [htaken] at hreads
      obtain ⟨offset, e, hoffset, hmem⟩ := hreads
      exact ⟨offset, e, hoffset, List.mem_append_right _ hmem⟩

theorem skips_semicolon (hkind : token.kind = .separator .semicolon) (rest : List Token) :
    Skips [token] rest := by
  have hnone (more : List Token) : read? token more = none := by
    unfold read?
    rw [hkind]
  refine ⟨fun _ => [], fun position => ?_, fun position tok after _ => ?_⟩
  · exact splitFrom_none (hnone _) position
  · exact splitFrom_none (hnone _) position

theorem Completes.skips {clause : Clause} (h : Completes token rest clause n) :
    Skips (token :: rest.take n) (rest.drop n) := by
  obtain ⟨hle, hread, hthrough, -⟩ := h
  have hlength (position : Nat) : position + 1 + n = position + (token :: rest.take n).length := by
    rw [List.length_cons, List.length_take_of_le hle]
    omega
  refine ⟨fun position => [(position, clause)], fun position => ?_, fun position tok after htok => ?_⟩
  · rw [List.cons_append, List.take_append_drop, splitFrom_some hread, hlength]
    rfl
  · rw [List.cons_append, List.cons_append, List.take_append_drop,
      splitFrom_some (hthrough tok after htok), hlength, List.drop_append_of_le_length hle]
    rfl

theorem Completes.at_end {clause : Clause} (h : Completes token rest clause n) (hnil : rest.drop n = []) :
    signAfter (token :: rest.take n).getLast? = true ∨ ∀ position, ∃ offset inner,
      (offset, .condition inner) ∈ splitFrom position (token :: rest.take n) ∧
        offset + width (.condition inner) = position + (token :: rest.take n).length := by
  obtain ⟨hle, hread, -, hend⟩ := h
  obtain rfl : n = rest.length := Nat.le_antisymm hle (List.drop_eq_nil_iff.mp hnil)
  rw [List.take_length]
  refine (hend rfl).imp_right fun ⟨inner, hclause, hlength⟩ position => ?_
  subst hclause
  refine ⟨position, inner, ?_, ?_⟩
  · rw [splitFrom_some hread]
    exact List.mem_cons_self
  · rw [List.length_cons, hlength]
    rfl

/-- The tokens in front of a place decide where the reader is. -/
theorem exists_spot (before : List Token) : ∃ slot pre depth, Spot before slot pre depth := by
  generalize hlength : before.length = length
  induction length using Nat.strongRecOn generalizing before with
  | ind length ih =>
    subst hlength
    cases before with
    | nil => exact ⟨_, _, _, spot_nil⟩
    | cons token rest =>
      rcases read?_cases token rest with hkind | ⟨clause, n, hcompletes⟩ | ⟨slot, pre, depth, hwithin⟩
      · obtain ⟨slot, pre, depth, hspot⟩ := ih _ (Nat.lt_succ_self _) rest rfl
        refine ⟨slot, pre, depth, hspot.behind (skips_semicolon hkind rest) fun _ => .inl ?_⟩
        rw [List.getLast?_singleton, signAfter, hkind]
        rfl
      · have hlength : (rest.drop n).length < (token :: rest).length := by
          rw [List.length_drop, List.length_cons]
          omega
        obtain ⟨slot, pre, depth, hspot⟩ := ih _ hlength (rest.drop n) rfl
        have hspot' := hspot.behind hcompletes.skips hcompletes.at_end
        rw [List.cons_append, List.take_append_drop] at hspot'
        exact ⟨slot, pre, depth, hspot'⟩
      · exact ⟨slot, pre, depth, spot_within hwithin⟩

end Spots

section Taking

variable {tokens post : List Token} {clause clause' : Clause} {offset offset' index : Nat}
  {e : SyntaxError} {clauses : List (Nat × Clause)}

/-- Plain tokens belong to the clause they stand in. -/
theorem taken?_plain (htokens : ∀ token ∈ tokens, Plain token) (slot : Slot) (depth : Nat)
    (after : List Token) :
    slot.taken? depth (tokens ++ after) = (slot.taken? depth after).map (tokens ++ ·) := by
  induction tokens with
  | nil => cases h : slot.taken? depth after <;> simp [h]
  | cons token tokens ih =>
    obtain ⟨htoken, htokens⟩ := List.forall_mem_cons.mp htokens
    have hcons (rest : List Token) :
        slot.taken? depth (token :: rest) = (slot.taken? depth rest).map (token :: ·) := by
      have hlength : statementLength depth (token :: rest) = statementLength depth rest + 1 := by
        rw [statementLength, htoken.not_boundary, Bool.and_false, if_neg Bool.false_ne_true,
          htoken.nesting_eq]
      cases slot with
      | condition =>
        rw [Slot.taken?, Slot.taken?, htoken.conditionLength?_cons]
        cases conditionLength? depth rest <;> rfl
      | giveBack | statement =>
        rw [Slot.taken?, Slot.taken?, hlength]
        rfl
      | missing => rfl
    rw [List.cons_append, hcons, ih htokens, Option.map_map]
    rfl

theorem taken?_prefix (h : slot.taken? depth after = some post) : post <+: after := by
  cases slot with
  | condition =>
    obtain ⟨n, -, rfl⟩ := Option.map_eq_some_iff.mp h
    exact List.take_prefix _ _
  | giveBack | statement =>
    cases h
    exact List.take_prefix _ _
  | missing => cases h

theorem Slot.lead_le_width (h : slot.taken? depth after = some post) (tokens : List Token) :
    slot.lead + tokens.length ≤ (slot.clause tokens).width := by
  cases slot with
  | missing => cases h
  | condition | giveBack | statement =>
    simp only [lead, clause, width]
    omega

/-- Nothing comes after an `if` without a condition. -/
theorem Tiles.before_malformed (h : Tiles position tokens clauses)
    (hmalformed : (offset', .malformed e) ∈ clauses) (hmem : (offset, clause) ∈ clauses) :
    offset + clause.width ≤ offset' := by
  induction h with
  | done => cases hmem
  | semicolon _ _ ih => exact ih hmalformed hmem
  | @clause position first front rest clauses hcovers hends hrest ih =>
    rcases List.mem_cons.mp hmalformed with heq | hlater
    · obtain ⟨-, rfl⟩ := Prod.mk.inj heq
      exact absurd rfl hcovers.not_malformed
    rcases List.mem_cons.mp hmem with heq | hmem
    · cases heq
      rw [← hcovers.length_eq]
      exact hrest.position_le hlater
    · exact ih hlater hmem
  | malformed =>
    cases List.mem_singleton.mp hmalformed
    cases List.mem_singleton.mp hmem
    exact Nat.le_refl _

/-- A token is in the span of one clause only. -/
theorem Tiles.eq_of_span (h : Tiles position tokens clauses) (hmem : (offset, clause) ∈ clauses)
    (hmem' : (offset', clause') ∈ clauses) (hspan : offset ≤ index ∧ index < offset + clause.width)
    (hspan' : offset' ≤ index ∧ index < offset' + clause'.width) :
    offset = offset' ∧ clause = clause' := by
  induction h with
  | done => cases hmem
  | semicolon _ _ ih => exact ih hmem hmem'
  | @clause position first front rest clauses hcovers hends hbehind ih =>
    have hlater {offset : Nat} {clause : Clause} (hmem : (offset, clause) ∈ clauses) :
        position + first.width ≤ offset := by
      rw [← hcovers.length_eq]
      exact hbehind.position_le hmem
    rcases List.mem_cons.mp hmem with heq | hrest <;> rcases List.mem_cons.mp hmem' with heq' | hrest'
    · cases heq
      cases heq'
      exact ⟨rfl, rfl⟩
    · cases heq
      exact absurd (Nat.le_trans (hlater hrest') hspan'.1) (Nat.not_le_of_lt hspan.2)
    · cases heq'
      exact absurd (Nat.le_trans (hlater hrest) hspan.1) (Nat.not_le_of_lt hspan'.2)
    · exact ih hrest hrest'
  | malformed =>
    cases List.mem_singleton.mp hmem
    cases List.mem_singleton.mp hmem'
    exact ⟨rfl, rfl⟩

end Taking

end BuildScript.Clause
