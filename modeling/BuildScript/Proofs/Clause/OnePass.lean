import BuildScript.Proofs.Clause.Spans

/-!
Clauses in one pass. A single loop over the tokens collects the statement it is in and counts the
parentheses and brackets around the token it is at; at an `if` it jumps behind the condition, which a
second loop looks for. Every index and every counter is checked here. No check fails, and the clauses
are those that are read one by one.
-/

namespace BuildScript.Clause

/-- What can be wrong with an index or a counter. -/
inductive Slip where
  | noToken
  | noSlice
  | belowZero

/-- The statement that is being collected. -/
structure Pending where
  tokens : List Token
  offset : Nat
  isReturn : Bool

namespace Pending

def none : Pending := ⟨[], 0, false⟩

/-- The clause that was collected, if there is one. -/
def flushed (pending : Pending) : List (Nat × Clause) :=
  if pending.isReturn then [(pending.offset, .giveBack pending.tokens)]
  else if pending.tokens.isEmpty then []
  else [(pending.offset, .statement pending.tokens)]

def push (pending : Pending) (index : Nat) (token : Token) : Pending where
  tokens := pending.tokens ++ [token]
  offset := if pending.tokens.isEmpty && !pending.isReturn then index else pending.offset
  isReturn := pending.isReturn

end Pending

section Loops

variable (tokens : List Token)

def tokenAt (index : Nat) : Except Slip Token :=
  match tokens[index]? with
  | some token => .ok token
  | none => .error .noToken

def decrease (count : Nat) : Except Slip Nat :=
  if count = 0 then .error .belowZero else .ok (count - 1)

/-- The index of the parenthesis that closes the first one, where `count` of them are open. -/
def closingFrom (index count : Nat) : Except Slip (Option Nat) :=
  if index < tokens.length then do
    let token ← tokenAt tokens index
    if token.isSeparator .parenOpen then closingFrom (index + 1) (count + 1)
    else if token.isSeparator .parenClose then
      let count ← decrease count
      if count = 0 then return some index else closingFrom (index + 1) count
    else closingFrom (index + 1) count
  else return none
termination_by tokens.length - index

/-- The index of the parenthesis that closes the condition, which begins at the index given. -/
def conditionEnd (opening : Nat) : Except Slip (Except SyntaxError Nat) :=
  if (tokens[opening]?).any (·.isSeparator .parenOpen) then do
    match ← closingFrom tokens opening 0 with
    | some closing => return .ok closing
    | none => return .error (.expectedClosing Separator.parenClose.char)
  else return .error .missingCondition

/-- What the loop does at a token. -/
inductive Action where
  | skip
  | alone (clause : Clause)
  | readCondition
  | beginReturn
  | collect

def actionAt (depth : Nat) (token : Token) : Action :=
  if depth = 0 then
    match token.kind with
    | .separator .semicolon => .skip
    | .separator .braceOpen => .alone .blockOpen
    | .separator .braceClose => .alone .blockClose
    | .keyword .elseWord => .alone .elseMark
    | .keyword .ifWord => .readCondition
    | .keyword .returnWord => .beginReturn
    | _ => .collect
  else .collect

/-- The loop, with the clauses found so far. -/
def passFrom (clauses : List (Nat × Clause)) (pending : Pending) (depth index : Nat) :
    Except Slip (List (Nat × Clause)) :=
  if index < tokens.length then do
    let token ← tokenAt tokens index
    let done := clauses ++ pending.flushed
    match actionAt depth token with
    | .skip => passFrom done .none depth (index + 1)
    | .alone clause => passFrom (done ++ [(index, clause)]) .none depth (index + 1)
    | .readCondition =>
      match ← conditionEnd tokens (index + 1) with
      | .error e => return done ++ [(index, .malformed e)]
      | .ok closing =>
        if index + 2 ≤ closing ∧ closing ≤ tokens.length then
          let inner := (tokens.drop (index + 2)).take (closing - (index + 2))
          passFrom (done ++ [(index, .condition inner)]) .none depth (closing + 1)
        else throw .noSlice
    | .beginReturn => passFrom done ⟨[], index, true⟩ depth (index + 1)
    | .collect => passFrom clauses (pending.push index token) (nesting depth token) (index + 1)
  else return clauses ++ pending.flushed
termination_by tokens.length - index

def onePass : Except Slip (List (Nat × Clause)) := passFrom tokens [] .none 0 0

end Loops

namespace Pending

/-- Collects tokens that stand at an index and behind it. -/
def extend (pending : Pending) (index : Nat) : List Token → Pending
  | [] => pending
  | token :: rest => (pending.push index token).extend (index + 1) rest

variable {pending : Pending} {index offset : Nat} {tokens rest : List Token} {token : Token}

theorem extend_begun (h : pending.tokens ≠ [] ∨ pending.isReturn = true) (index : Nat)
    (tokens : List Token) :
    pending.extend index tokens = { pending with tokens := pending.tokens ++ tokens } := by
  induction tokens generalizing pending index with
  | nil => simp [extend]
  | cons token rest ih =>
    have hpush : pending.push index token =
        { pending with tokens := pending.tokens ++ [token] } := by
      rcases h with hne | hreturn
      · simp [push, hne]
      · simp [push, hreturn]
    rw [extend, hpush, ih (.inl (by simp))]
    simp

theorem flushed_extend_none (index : Nat) (token : Token) (rest : List Token) :
    (none.extend index (token :: rest)).flushed = [(index, .statement (token :: rest))] := by
  rw [extend, extend_begun (.inl (by simp [push]))]
  simp [push, none, flushed]

theorem flushed_extend_return (offset index : Nat) (tokens : List Token) :
    ((⟨[], offset, true⟩ : Pending).extend index tokens).flushed = [(offset, .giveBack tokens)] := by
  rw [extend_begun (.inr rfl)]
  simp [flushed]

end Pending

section Passing

variable {before rest tokens : List Token} {token : Token} {clauses : List (Nat × Clause)}
  {pending : Pending} {depth index : Nat}

theorem tokenAt_append (before : List Token) (token : Token) (rest : List Token) :
    tokenAt (before ++ token :: rest) before.length = .ok token := by
  simp [tokenAt]

theorem append_cons_eq (before : List Token) (token : Token) (rest : List Token) :
    before ++ token :: rest = (before ++ [token]) ++ rest := by simp

/-- The second loop finds what closes the condition. -/
theorem closingFrom_eq (before rest : List Token) (depth : Nat) :
    closingFrom (before ++ rest) before.length (depth + 1) =
      .ok ((conditionLength? depth rest).map (before.length + ·)) := by
  induction rest generalizing before depth with
  | nil =>
    rw [closingFrom, if_neg (by simp)]
    rfl
  | cons token rest ih =>
    have hnext (depth : Nat) : closingFrom (before ++ token :: rest) (before.length + 1) (depth + 1) =
        .ok ((conditionLength? depth rest).map (before.length + 1 + ·)) := by
      have := ih (before ++ [token]) depth
      rwa [← append_cons_eq, List.length_append] at this
    have hshift (n : Option Nat) : (n.map (· + 1)).map (before.length + ·) =
        n.map (before.length + 1 + ·) := by
      cases n with
      | none => rfl
      | some n =>
        refine congrArg some ?_
        dsimp only
        omega
    rw [closingFrom, if_pos (by simp), tokenAt_append, conditionLength?]
    simp only [bind, Except.bind]
    by_cases hclose : token.isSeparator .parenClose = true
    · have hopen := not_open_of_close hclose
      simp only [hopen, hclose, if_true, Bool.false_eq_true, if_false]
      rw [decrease, if_neg (Nat.succ_ne_zero _)]
      simp only [Nat.add_sub_cancel]
      cases depth with
      | zero => rfl
      | succ depth =>
        rw [if_neg (Nat.succ_ne_zero _), hnext, ← hshift]
        rfl
    · by_cases hopen : token.isSeparator .parenOpen = true
      · rw [if_pos hopen, if_neg hclose, if_pos hopen, hnext, hshift]
      · rw [if_neg hopen, if_neg hclose, if_neg hclose, if_neg hopen, hnext, hshift]

theorem conditionEnd_open (before : List Token) {opening : Token} (rest : List Token)
    (hopening : opening.isSeparator .parenOpen = true) :
    conditionEnd (before ++ opening :: rest) before.length = .ok (match conditionLength? 0 rest with
      | some n => .ok (before.length + 1 + n)
      | none => .error (.expectedClosing Separator.parenClose.char)) := by
  have hfirst : ((before ++ opening :: rest)[before.length]?).any (·.isSeparator .parenOpen) = true := by
    simpa using hopening
  have hclosing := closingFrom_eq (before ++ [opening]) rest 0
  rw [← append_cons_eq, List.length_append] at hclosing
  have hstep : closingFrom (before ++ opening :: rest) before.length 0 =
      closingFrom (before ++ opening :: rest) (before.length + 1) 1 := by
    rw [closingFrom, if_pos (by simp), tokenAt_append]
    simp only [bind, Except.bind, if_pos hopening]
  have hfound : closingFrom (before ++ opening :: rest) (before.length + 1) 1 =
      .ok ((conditionLength? 0 rest).map (before.length + 1 + ·)) := hclosing
  rw [conditionEnd, if_pos hfirst, hstep, hfound]
  cases conditionLength? 0 rest <;> rfl

theorem conditionEnd_missing (before : List Token)
    (h : ∀ token ∈ rest.head?, token.isSeparator .parenOpen = false) :
    conditionEnd (before ++ rest) before.length = .ok (.error .missingCondition) := by
  have hfirst : ¬((before ++ rest)[before.length]?).any (·.isSeparator .parenOpen) = true := by
    cases rest with
    | nil => simp
    | cons token rest => simp [h token rfl]
  rw [conditionEnd, if_neg hfirst]
  rfl

/-- The first statement of a line is a clause, or there is none, and the clauses behind it are those
of the rest of the line. -/
theorem splitFrom_statement (position : Nat) (tokens : List Token) :
    splitFrom position tokens =
      (Pending.none.extend position (tokens.take (statementLength 0 tokens))).flushed ++
        splitFrom (position + statementLength 0 tokens) (tokens.drop (statementLength 0 tokens)) := by
  cases tokens with
  | nil => rw [List.take_nil, List.drop_nil, splitFrom, splitFrom]; rfl
  | cons token rest =>
    by_cases hboundary : isBoundary token = true
    · have hlength : statementLength 0 (token :: rest) = 0 := by
        rw [statementLength, hboundary]
        rfl
      rw [hlength]
      rfl
    · have hlength : statementLength 0 (token :: rest) =
          statementLength (nesting 0 token) rest + 1 := by
        rw [statementLength, eq_false_of_ne_true hboundary]
        rfl
      have hread : read? token rest = some (.statement (token :: rest.take
          (statementLength (nesting 0 token) rest)), statementLength (nesting 0 token) rest) := by
        unfold read?
        unfold isBoundary at hboundary
        split <;> simp_all
      rw [hlength, List.take_succ_cons, List.drop_succ_cons, Pending.flushed_extend_none, splitFrom,
        hread]
      dsimp only
      rw [Nat.add_assoc, Nat.add_comm 1]
      rfl

/-- From here on the loop completes the statement it is in and finds the clauses behind it. -/
def Passes (before rest : List Token) : Prop :=
  ∀ clauses pending depth, passFrom (before ++ rest) clauses pending depth before.length =
    .ok (clauses ++ (pending.extend before.length (rest.take (statementLength depth rest))).flushed ++
      splitFrom (before.length + statementLength depth rest)
        (rest.drop (statementLength depth rest)))

/-- Where no statement is begun, the clauses of the rest of the line are found. -/
theorem Passes.fresh (h : Passes before rest) (clauses : List (Nat × Clause)) :
    passFrom (before ++ rest) clauses .none 0 before.length =
      .ok (clauses ++ splitFrom before.length rest) := by
  rw [h, splitFrom_statement before.length rest, List.append_assoc]

theorem Passes.next (h : Passes (before ++ [token]) rest) (clauses : List (Nat × Clause)) :
    passFrom (before ++ token :: rest) clauses .none 0 (before.length + 1) =
      .ok (clauses ++ splitFrom (before.length + 1) rest) := by
  have hfresh := h.fresh clauses
  rwa [← append_cons_eq, List.length_append] at hfresh

/-- A token that is collected belongs to the statement. -/
theorem Passes.collect (h : Passes (before ++ [token]) rest)
    (hcollect : (depth == 0 && isBoundary token) = false) (clauses : List (Nat × Clause))
    (pending : Pending) : passFrom (before ++ token :: rest) clauses (pending.push before.length token)
      (nesting depth token) (before.length + 1) =
        .ok (clauses ++ (pending.extend before.length ((token :: rest).take
            (statementLength depth (token :: rest)))).flushed ++
          splitFrom (before.length + statementLength depth (token :: rest))
            ((token :: rest).drop (statementLength depth (token :: rest)))) := by
  have hrest := h clauses (pending.push before.length token) (nesting depth token)
  rw [← append_cons_eq, List.length_append] at hrest
  have hshift : before.length + (statementLength (nesting depth token) rest + 1) =
      before.length + 1 + statementLength (nesting depth token) rest := by omega
  rw [statementLength, hcollect, if_neg Bool.false_ne_true, List.take_succ_cons,
    List.drop_succ_cons, hshift]
  exact hrest

theorem passFrom_step (before : List Token) (token : Token) (rest : List Token)
    (clauses : List (Nat × Clause)) (pending : Pending) (depth : Nat) :
    passFrom (before ++ token :: rest) clauses pending depth before.length =
      match actionAt depth token with
      | .skip => passFrom (before ++ token :: rest) (clauses ++ pending.flushed) .none depth
          (before.length + 1)
      | .alone clause => passFrom (before ++ token :: rest)
          (clauses ++ pending.flushed ++ [(before.length, clause)]) .none depth (before.length + 1)
      | .readCondition => (conditionEnd (before ++ token :: rest) (before.length + 1)).bind fun
        | .error e => .ok (clauses ++ pending.flushed ++ [(before.length, .malformed e)])
        | .ok closing =>
          if before.length + 2 ≤ closing ∧ closing ≤ (before ++ token :: rest).length then
            passFrom (before ++ token :: rest)
              (clauses ++ pending.flushed ++ [(before.length, .condition
                (((before ++ token :: rest).drop (before.length + 2)).take
                  (closing - (before.length + 2))))]) .none depth (closing + 1)
          else .error .noSlice
      | .beginReturn => passFrom (before ++ token :: rest) (clauses ++ pending.flushed)
          ⟨[], before.length, true⟩ depth (before.length + 1)
      | .collect => passFrom (before ++ token :: rest) clauses (pending.push before.length token)
          (nesting depth token) (before.length + 1) := by
  rw [passFrom, if_pos (by simp), tokenAt_append]
  simp only [bind, Except.bind]
  rfl

/-- At a token that is not collected the statement is complete. -/
theorem boundary_eq (hboundary : isBoundary token = true) (clauses : List (Nat × Clause))
    (pending : Pending) (rest : List Token) (index : Nat) :
    clauses ++ (pending.extend index ((token :: rest).take (statementLength 0 (token :: rest)))).flushed
        ++ splitFrom (index + statementLength 0 (token :: rest))
          ((token :: rest).drop (statementLength 0 (token :: rest))) =
      clauses ++ pending.flushed ++ splitFrom index (token :: rest) := by
  have hlength : statementLength 0 (token :: rest) = 0 := by
    rw [statementLength, hboundary]
    rfl
  rw [hlength]
  rfl

theorem splitFrom_none (h : read? token rest = none) (position : Nat) :
    splitFrom position (token :: rest) = splitFrom (position + 1) rest := by
  rw [splitFrom, h]

theorem splitFrom_some {clause : Clause} {n : Nat} (h : read? token rest = some (clause, n))
    (position : Nat) : splitFrom position (token :: rest) =
      (position, clause) :: splitFrom (position + 1 + n) (rest.drop n) := by
  rw [splitFrom, h]

/-- What the loop does at a token, and how the token begins a clause. -/
theorem actionAt_cases (depth : Nat) (token : Token) :
    ((depth == 0 && isBoundary token) = false ∧ actionAt depth token = .collect) ∨
      depth = 0 ∧ isBoundary token = true ∧
        ((actionAt depth token = .skip ∧ ∀ rest, read? token rest = none) ∨
          (∃ clause, actionAt depth token = .alone clause ∧
            ∀ rest, read? token rest = some (clause, 0)) ∨
          (actionAt depth token = .readCondition ∧
            ∀ rest, read? token rest = some (readCondition rest)) ∨
          (actionAt depth token = .beginReturn ∧ ∀ rest, read? token rest =
            some (.giveBack (rest.take (statementLength 0 rest)), statementLength 0 rest))) := by
  by_cases hdepth : depth = 0
  · subst hdepth
    unfold actionAt isBoundary read?
    split <;> simp_all
  · refine .inl ⟨?_, if_neg hdepth⟩
    rw [beq_eq_false_iff_ne.mpr hdepth]
    rfl

theorem readCondition_open {opening : Token} (hopening : opening.isSeparator .parenOpen = true)
    (rest : List Token) : readCondition (opening :: rest) = match conditionLength? 0 rest with
      | some n => (.condition (rest.take n), n + 2)
      | none => (.malformed (.expectedClosing Separator.parenClose.char), rest.length + 1) := by
  obtain ⟨kind, text, spaced⟩ := opening
  obtain rfl : kind = .separator .parenOpen := isSeparator_iff.mp hopening
  rfl

theorem readCondition_missing (h : ∀ token ∈ rest.head?, token.isSeparator .parenOpen = false) :
    readCondition rest = (.malformed .missingCondition, rest.length) := by
  unfold readCondition
  split
  · cases h _ rfl
  · rfl

/-- Without a condition behind an `if` the loop ends there. -/
theorem passFrom_malformed {e : SyntaxError}
    (hend : conditionEnd (before ++ token :: rest) (before.length + 1) = .ok (.error e))
    (hread : read? token rest = some (.malformed e, rest.length))
    (haction : actionAt 0 token = .readCondition) (clauses : List (Nat × Clause)) (pending : Pending) :
    passFrom (before ++ token :: rest) clauses pending 0 before.length =
      .ok (clauses ++ pending.flushed ++ splitFrom before.length (token :: rest)) := by
  rw [passFrom_step, haction, splitFrom_some hread, List.drop_length, splitFrom, hend]
  rfl

/-- Behind a condition the loop goes on; without one it ends. -/
theorem Passes.condition (h : ∀ front behind, rest = front ++ behind →
      Passes (before ++ token :: front) behind)
    (haction : actionAt 0 token = .readCondition)
    (hread : ∀ rest, read? token rest = some (readCondition rest)) (clauses : List (Nat × Clause))
    (pending : Pending) : passFrom (before ++ token :: rest) clauses pending 0 before.length =
      .ok (clauses ++ pending.flushed ++ splitFrom before.length (token :: rest)) := by
  have hlength : (before ++ [token]).length = before.length + 1 := by simp
  by_cases hopen : ∀ first ∈ rest.head?, first.isSeparator .parenOpen = false
  · have hend := conditionEnd_missing (before ++ [token]) hopen
    rw [← append_cons_eq, hlength] at hend
    exact passFrom_malformed hend ((hread rest).trans (congrArg some (readCondition_missing hopen)))
      haction clauses pending
  · obtain ⟨opening, hfirst, hopening⟩ : ∃ opening, opening ∈ rest.head? ∧
        opening.isSeparator .parenOpen = true := by simpa using hopen
    obtain ⟨rest, rfl⟩ := List.head?_eq_some_iff.mp hfirst
    have hend := conditionEnd_open (before ++ [token]) rest hopening
    rw [← append_cons_eq, hlength] at hend
    have hcondition := readCondition_open hopening rest
    cases hfound : conditionLength? 0 rest with
    | none =>
      rw [hfound] at hend hcondition
      exact passFrom_malformed hend ((hread _).trans (congrArg some hcondition)) haction clauses
        pending
    | some n =>
      rw [hfound] at hend hcondition
      obtain ⟨inner, closing, behind, rfl, rfl, -⟩ := conditionLength?_some hfound
      dsimp only at hend hcondition
      rw [List.take_left] at hcondition
      have hpasses := h (opening :: (inner ++ [closing])) behind (by simp)
      have hfresh := hpasses.fresh
        (clauses ++ pending.flushed ++ [(before.length, .condition inner)])
      have hline : before ++ token :: opening :: (inner ++ [closing]) ++ behind =
          before ++ token :: opening :: (inner ++ closing :: behind) := by simp
      have hindex : (before ++ token :: opening :: (inner ++ [closing])).length =
          before.length + 1 + 1 + inner.length + 1 := by
        simp only [List.length_append, List.length_cons, List.length_nil]
        omega
      rw [hline, hindex] at hfresh
      have hinner : ((before ++ token :: opening :: (inner ++ closing :: behind)).drop
          (before.length + 2)).take (before.length + 1 + 1 + inner.length - (before.length + 2)) =
            inner := by
        have hcount : before.length + 1 + 1 + inner.length - (before.length + 2) = inner.length := by
          omega
        rw [hcount, List.drop_length_add_append]
        exact List.take_left
      have hrange : before.length + 2 ≤ before.length + 1 + 1 + inner.length ∧
          before.length + 1 + 1 + inner.length ≤
            (before ++ token :: opening :: (inner ++ closing :: behind)).length := by
        simp only [List.length_append, List.length_cons]
        omega
      have hbehind : (opening :: (inner ++ closing :: behind)).drop (inner.length + 2) = behind := by
        have hsplit : opening :: (inner ++ closing :: behind) =
            (opening :: (inner ++ [closing])) ++ behind := by simp
        rw [hsplit]
        exact List.drop_left' (by simp)
      rw [passFrom_step, haction, splitFrom_some ((hread _).trans (congrArg some hcondition)), hend,
        hbehind]
      dsimp only [Except.bind]
      rw [if_pos hrange, hinner, hfresh, List.append_assoc _ [_]]
      have hposition : before.length + 1 + 1 + inner.length + 1 =
          before.length + 1 + (inner.length + 2) := by omega
      rw [hposition]
      rfl

/-- One pass over a line finds the clauses that are read one by one. -/
theorem passes (before rest : List Token) : Passes before rest := by
  generalize hlength : rest.length = length
  induction length using Nat.strongRecOn generalizing before rest with
  | ind length ih =>
    subst hlength
    intro clauses pending depth
    cases rest with
    | nil =>
      rw [passFrom, if_neg (by simp), List.take_nil, List.drop_nil, splitFrom, List.append_nil]
      rfl
    | cons token rest =>
      have hnext : Passes (before ++ [token]) rest := ih _ (Nat.lt_succ_self _) _ _ rfl
      rcases actionAt_cases depth token with
        ⟨hcollect, haction⟩ | ⟨rfl, hboundary, hactions⟩
      · rw [passFrom_step, haction]
        exact hnext.collect hcollect clauses pending
      rw [boundary_eq hboundary]
      rcases hactions with ⟨haction, hread⟩ | ⟨clause, haction, hread⟩ | ⟨haction, hread⟩ |
        ⟨haction, hread⟩
      · rw [passFrom_step, haction]
        dsimp only
        rw [hnext.next, splitFrom_none (hread rest)]
      · rw [passFrom_step, haction]
        dsimp only
        rw [hnext.next, splitFrom_some (hread rest), List.append_assoc _ [_]]
        rfl
      · refine Passes.condition (fun front behind hrest => ?_) haction hread clauses pending
        refine ih _ ?_ _ _ rfl
        rw [hrest, List.length_cons, List.length_append]
        omega
      · have hreturn := hnext (clauses ++ pending.flushed) ⟨[], before.length, true⟩ 0
        rw [← append_cons_eq, List.length_append, Pending.flushed_extend_return,
          List.append_assoc _ [_]] at hreturn
        rw [passFrom_step, haction, splitFrom_some (hread rest)]
        exact hreturn

/-- No check fails, and the clauses are those that are read one by one. -/
theorem onePass_eq (tokens : List Token) : onePass tokens = .ok (split tokens) :=
  (passes [] tokens).fresh []

/-- Splitting a line loses nothing. One pass finds the clauses, without an index out of range or a count
below zero. Their spans are in order and do not overlap, and each clause has just the tokens of its
span. A token outside all spans is a semicolon, unless an `if` without a condition comes before it;
that one is the last clause. -/
theorem split_loses_nothing (tokens : List Token) :
    onePass tokens = .ok (split tokens) ∧
      ((split tokens).Pairwise fun first second =>
        first.1 < second.1 ∧ first.1 + first.2.width ≤ second.1) ∧
      (∀ offset clause, (offset, clause) ∈ split tokens → (∀ e, clause ≠ .malformed e) →
        offset + clause.width ≤ tokens.length ∧
          clause.Covers ((tokens.drop offset).take clause.width) ∧
            clause.EndsBefore tokens[offset + clause.width]?) ∧
      (∀ index token, tokens[index]? = some token →
        (∀ offset clause, (offset, clause) ∈ split tokens → offset ≤ index →
          offset + clause.width ≤ index) →
        token.kind = .separator .semicolon ∨
          ∃ offset e, (offset, .malformed e) ∈ split tokens ∧ offset ≤ index) ∧
      ∀ offset e, (offset, .malformed e) ∈ split tokens →
        (split tokens).getLast? = some (offset, .malformed e) ∧
          ∃ word, tokens[offset]? = some word ∧ word.kind = .keyword .ifWord ∧
            LacksCondition (tokens.drop (offset + 1)) e := by
  have htiles : Tiles 0 tokens (split tokens) := tiles_splitFrom 0 tokens
  refine ⟨onePass_eq tokens, htiles.pairwise, fun offset clause hmem hwhole => ?_,
    fun index token htoken houtside => ?_, fun offset e hmem => ?_⟩
  · obtain ⟨before, slice, behind, htokens, hoffset, hcovers, hends⟩ :=
      htiles.exists_slice hmem hwhole
    obtain rfl : before.length = offset := by omega
    rw [htokens, ← hcovers.length_eq, List.drop_left, List.take_left]
    refine ⟨?_, hcovers, ?_⟩
    · simp only [List.length_append]
      omega
    · rw [← List.append_assoc, ← List.length_append, List.getElem?_append_right (Nat.le_refl _),
        Nat.sub_self, ← List.head?_eq_getElem?]
      exact hends
  · have haccounts := htiles.accounts htoken
    rw [Nat.zero_add] at haccounts
    rcases haccounts with hsemicolon | ⟨offset, clause, hmem, hbegun, hinside⟩ | hmalformed
    · exact .inl hsemicolon
    · exact absurd (houtside offset clause hmem hbegun) (Nat.not_le_of_lt hinside)
    · exact .inr hmalformed
  · obtain ⟨hlast, before, word, rest, htokens, hoffset, hword, hlacks⟩ := htiles.malformed_last hmem
    obtain rfl : before.length = offset := by omega
    refine ⟨hlast, word, ?_, hword, ?_⟩
    · rw [htokens, List.getElem?_append_right (Nat.le_refl _), Nat.sub_self]
      rfl
    · rw [htokens, List.drop_length_add_append]
      exact hlacks

end Passing

end BuildScript.Clause
