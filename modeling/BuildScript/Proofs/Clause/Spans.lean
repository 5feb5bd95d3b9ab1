import BuildScript.Clause

/-!
The clauses of a line and the tokens they come from. A clause takes a run of tokens, and the runs stand
one behind the other with nothing but semicolons between them. What a statement takes ends at the first
token outside its parentheses and brackets that begins or ends a clause, and what a condition takes ends
at the parenthesis that closes the one it begins with.
-/

namespace BuildScript.Clause

/-- The nesting of parentheses and brackets behind the tokens. -/
def depthAfter (tokens : List Token) : Nat := tokens.foldl nesting 0

/-- Outside parentheses and brackets no token begins or ends a clause. -/
def Unbroken (tokens : List Token) : Prop :=
  ∀ front token back, tokens = front ++ token :: back → depthAfter front = 0 →
    isBoundary token = false

def opened (tokens : List Token) : Nat := tokens.countP (·.isSeparator .parenOpen)

def closed (tokens : List Token) : Nat := tokens.countP (·.isSeparator .parenClose)

/-- Where so many parentheses are open, none is closed that is not opened before. -/
def StaysWithin (depth : Nat) (tokens : List Token) : Prop :=
  ∀ n, closed (tokens.take n) ≤ opened (tokens.take n) + depth

/-- The clause is what the tokens are. -/
inductive Covers : Clause → List Token → Prop
  | condition {word opening closing : Token} {inner : List Token}
    (hword : word.kind = .keyword .ifWord) (hopening : opening.isSeparator .parenOpen = true)
    (hclosing : closing.isSeparator .parenClose = true) (hinner : StaysWithin 0 inner)
    (hbalanced : opened inner = closed inner) :
    Covers (.condition inner) (word :: opening :: (inner ++ [closing]))
  | elseMark {token : Token} (htoken : token.kind = .keyword .elseWord) : Covers .elseMark [token]
  | blockOpen {token : Token} (htoken : token.kind = .separator .braceOpen) :
    Covers .blockOpen [token]
  | blockClose {token : Token} (htoken : token.kind = .separator .braceClose) :
    Covers .blockClose [token]
  | giveBack {word : Token} {inner : List Token} (hword : word.kind = .keyword .returnWord)
    (hinner : Unbroken inner) : Covers (.giveBack inner) (word :: inner)
  | statement {tokens : List Token} (htokens : Unbroken tokens) (hne : tokens ≠ []) :
    Covers (.statement tokens) tokens

/-- The number of tokens that belong to the clause. None do to an `if` without a condition. -/
def width : Clause → Nat
  | condition inner => inner.length + 3
  | elseMark | blockOpen | blockClose => 1
  | giveBack inner => inner.length + 1
  | statement tokens => tokens.length
  | malformed _ => 0

/-- What follows the clause is not taken by it: a statement ends at a token outside its parentheses
that begins or ends a clause. -/
def EndsBefore (clause : Clause) (next : Option Token) : Prop :=
  match clause with
  | .giveBack tokens | .statement tokens =>
    ∀ token ∈ next, depthAfter tokens = 0 ∧ isBoundary token = true
  | _ => True

/-- What follows an `if` is no condition. -/
inductive LacksCondition : List Token → SyntaxError → Prop
  | missing {rest : List Token}
    (h : ∀ token ∈ rest.head?, token.isSeparator .parenOpen = false) :
    LacksCondition rest .missingCondition
  | unclosed {opening : Token} {rest : List Token}
    (hopening : opening.isSeparator .parenOpen = true) (hrest : StaysWithin 0 rest) :
    LacksCondition (opening :: rest) (.expectedClosing Separator.parenClose.char)

/-- The clauses are what the tokens are made of, with the positions of their first tokens; between
them are semicolons. `position` is that of the first token. -/
inductive Tiles : Nat → List Token → List (Nat × Clause) → Prop
  | done {position : Nat} : Tiles position [] []
  | semicolon {position : Nat} {token : Token} {rest : List Token} {clauses : List (Nat × Clause)}
    (htoken : token.kind = .separator .semicolon) (hrest : Tiles (position + 1) rest clauses) :
    Tiles position (token :: rest) clauses
  | clause {position : Nat} {clause : Clause} {front rest : List Token}
    {clauses : List (Nat × Clause)} (hcovers : clause.Covers front)
    (hends : clause.EndsBefore rest.head?) (hrest : Tiles (position + front.length) rest clauses) :
    Tiles position (front ++ rest) ((position, clause) :: clauses)
  | malformed {position : Nat} {word : Token} {rest : List Token} {e : SyntaxError}
    (hword : word.kind = .keyword .ifWord) (hrest : LacksCondition rest e) :
    Tiles position (word :: rest) [(position, .malformed e)]

variable {tokens rest front inner : List Token} {token word : Token} {clause : Clause}
  {clauses : List (Nat × Clause)} {position depth n : Nat} {e : SyntaxError}

section Statements

/-- What a statement takes at a depth: no boundary at depth zero, but for the one behind it. -/
theorem statementLength_spec (depth : Nat) (tokens : List Token) :
    ∃ front rest, tokens = front ++ rest ∧ front.length = statementLength depth tokens ∧
      (∀ before token behind, front = before ++ token :: behind → before.foldl nesting depth = 0 →
        isBoundary token = false) ∧
      ∀ token ∈ rest.head?, front.foldl nesting depth = 0 ∧ isBoundary token = true := by
  fun_induction statementLength depth tokens with
  | case1 depth => exact ⟨[], [], rfl, rfl, by simp, nofun⟩
  | case2 depth token rest hboundary =>
    obtain ⟨hdepth, htoken⟩ := (Bool.and_eq_true _ _).mp hboundary
    refine ⟨[], token :: rest, rfl, rfl, by simp, ?_⟩
    rintro _ ⟨⟩
    exact ⟨eq_of_beq hdepth, htoken⟩
  | case3 depth token rest hboundary ih =>
    obtain ⟨front, behind, rfl, hlength, hfront, hends⟩ := ih
    refine ⟨token :: front, behind, rfl, congrArg (· + 1) hlength, ?_, hends⟩
    intro before token' after hsplit hzero
    cases before with
    | nil =>
      obtain ⟨rfl, -⟩ := List.cons.inj hsplit
      have hzero' : depth = 0 := hzero
      rw [hzero'] at hboundary
      exact eq_false_of_ne_true fun htoken => hboundary (by rw [htoken]; rfl)
    | cons first before =>
      obtain ⟨rfl, hfollows⟩ := List.cons.inj hsplit
      exact hfront before token' after hfollows hzero

/-- The first token of a statement is taken whatever it is, as long as it is no boundary. -/
theorem unbroken_cons (htoken : isBoundary token = false)
    (h : ∀ before token' behind, inner = before ++ token' :: behind →
      before.foldl nesting (nesting 0 token) = 0 → isBoundary token' = false) :
    Unbroken (token :: inner) := by
  intro before token' behind hsplit hzero
  cases before with
  | nil =>
    obtain ⟨rfl, -⟩ := List.cons.inj hsplit
    exact htoken
  | cons first before =>
    obtain ⟨rfl, hfollows⟩ := List.cons.inj hsplit
    exact h before token' behind hfollows hzero

end Statements

section Conditions

theorem opened_cons (token : Token) (rest : List Token) :
    opened (token :: rest) = opened rest + opened [token] := by
  rw [← List.singleton_append, opened, List.countP_append, Nat.add_comm]
  rfl

theorem closed_cons (token : Token) (rest : List Token) :
    closed (token :: rest) = closed rest + closed [token] := by
  rw [← List.singleton_append, closed, List.countP_append, Nat.add_comm]
  rfl

theorem opened_single (token : Token) :
    opened [token] = if token.isSeparator .parenOpen then 1 else 0 := by
  simp [opened, List.countP_cons]

theorem closed_single (token : Token) :
    closed [token] = if token.isSeparator .parenClose then 1 else 0 := by
  simp [closed, List.countP_cons]

theorem not_open_of_close (h : token.isSeparator .parenClose = true) :
    token.isSeparator .parenOpen = false := by
  unfold Token.isSeparator at h ⊢
  split at h
  · rename_i separator hkind
    obtain rfl : separator = .parenClose := eq_of_beq h
    rfl
  · cases h

theorem stepDepth_close (h : token.isSeparator .parenClose = true) (hdepth : ¬(depth == 0) = true) :
    depth + opened [token] = depth - 1 + closed [token] := by
  have hpositive : depth ≠ 0 := by simpa using hdepth
  rw [opened_single, closed_single, if_pos h, not_open_of_close h, if_neg Bool.false_ne_true]
  omega

theorem stepDepth_open (depth : Nat) (h : ¬token.isSeparator .parenClose = true)
    (hopen : token.isSeparator .parenOpen = true) :
    depth + opened [token] = depth + 1 + closed [token] := by
  rw [opened_single, closed_single, if_neg h, if_pos hopen]

theorem stepDepth_other (depth : Nat) (h : ¬token.isSeparator .parenClose = true)
    (hopen : ¬token.isSeparator .parenOpen = true) :
    depth + opened [token] = depth + closed [token] := by
  rw [opened_single, closed_single, if_neg h, if_neg hopen]

variable {depth' : Nat}

theorem StaysWithin.cons (hdepth : depth + opened [token] = depth' + closed [token])
    (h : StaysWithin depth' rest) : StaysWithin depth (token :: rest) := by
  intro n
  cases n with
  | zero => exact Nat.zero_le _
  | succ n =>
    have hrest := h n
    rw [List.take_succ_cons, closed_cons, opened_cons]
    omega

/-- The parenthesis that is found is the first that closes more than is opened. -/
theorem conditionLength?_some (h : conditionLength? depth tokens = some n) :
    ∃ inner closing rest, tokens = inner ++ closing :: rest ∧ inner.length = n ∧
      closing.isSeparator .parenClose = true ∧ closed inner = opened inner + depth ∧
      StaysWithin depth inner := by
  fun_induction conditionLength? depth tokens generalizing n with
  | case1 => cases h
  | case2 depth token rest hclose hdepth =>
    cases h
    obtain rfl := eq_of_beq hdepth
    refine ⟨[], token, rest, rfl, rfl, hclose, rfl, fun m => ?_⟩
    rw [List.take_nil]
    exact Nat.zero_le _
  | case3 depth token rest hclose hdepth ih =>
    obtain ⟨n, hn, rfl⟩ := Option.map_eq_some_iff.mp h
    obtain ⟨inner, closing, behind, rfl, rfl, hclosing, hbalanced, hinner⟩ := ih hn
    have hstep := stepDepth_close hclose hdepth
    refine ⟨token :: inner, closing, behind, rfl, rfl, hclosing, ?_, hinner.cons hstep⟩
    rw [closed_cons, opened_cons]
    omega
  | case4 depth token rest hclose hopen ih =>
    obtain ⟨n, hn, rfl⟩ := Option.map_eq_some_iff.mp h
    obtain ⟨inner, closing, behind, rfl, rfl, hclosing, hbalanced, hinner⟩ := ih hn
    have hstep := stepDepth_open depth hclose hopen
    refine ⟨token :: inner, closing, behind, rfl, rfl, hclosing, ?_, hinner.cons hstep⟩
    rw [closed_cons, opened_cons]
    omega
  | case5 depth token rest hclose hopen ih =>
    obtain ⟨n, hn, rfl⟩ := Option.map_eq_some_iff.mp h
    obtain ⟨inner, closing, behind, rfl, rfl, hclosing, hbalanced, hinner⟩ := ih hn
    have hstep := stepDepth_other depth hclose hopen
    refine ⟨token :: inner, closing, behind, rfl, rfl, hclosing, ?_, hinner.cons hstep⟩
    rw [closed_cons, opened_cons]
    omega

theorem conditionLength?_none (h : conditionLength? depth tokens = none) :
    StaysWithin depth tokens := by
  fun_induction conditionLength? depth tokens with
  | case1 depth =>
    intro n
    rw [List.take_nil]
    exact Nat.zero_le _
  | case2 => cases h
  | case3 depth token rest hclose hdepth ih =>
    exact (ih (Option.map_eq_none_iff.mp h)).cons (stepDepth_close hclose hdepth)
  | case4 depth token rest hclose hopen ih =>
    exact (ih (Option.map_eq_none_iff.mp h)).cons (stepDepth_open depth hclose hopen)
  | case5 depth token rest hclose hopen ih =>
    exact (ih (Option.map_eq_none_iff.mp h)).cons (stepDepth_other depth hclose hopen)

end Conditions

section Tiling

theorem isSeparator_iff {separator : Separator} :
    token.isSeparator separator = true ↔ token.kind = .separator separator := by
  unfold Token.isSeparator
  split
  · rename_i other hkind
    simp [hkind]
  · rename_i hother
    refine iff_of_false Bool.false_ne_true fun hkind => hother _ hkind

/-- What an `if` is followed by is its condition, or there is none and the line ends. -/
theorem readCondition_spec (hword : word.kind = .keyword .ifWord) (rest : List Token) :
    (∃ inner front behind, rest = front ++ behind ∧
        readCondition rest = (.condition inner, front.length) ∧
          Covers (.condition inner) (word :: front)) ∨
      ∃ e, readCondition rest = (.malformed e, rest.length) ∧ LacksCondition rest e := by
  unfold readCondition
  split
  · rename_i text spaced rest
    cases hlength : conditionLength? 0 rest with
    | none => exact .inr ⟨_, rfl, .unclosed rfl (conditionLength?_none hlength)⟩
    | some n =>
      obtain ⟨inner, closing, behind, rfl, rfl, hclosing, hbalanced, hinner⟩ :=
        conditionLength?_some hlength
      refine .inl ⟨inner, ⟨.separator .parenOpen, text, spaced⟩ :: (inner ++ [closing]), behind,
        by simp, ?_, .condition hword rfl hclosing hinner hbalanced.symm⟩
      simp
  · rename_i hother
    refine .inr ⟨_, rfl, .missing fun token htoken => ?_⟩
    obtain ⟨behind, rfl⟩ := List.head?_eq_some_iff.mp htoken
    refine eq_false_of_ne_true fun hopen => ?_
    obtain ⟨kind, text, spaced⟩ := token
    obtain rfl : kind = .separator .parenOpen := isSeparator_iff.mp hopen
    exact hother text spaced behind rfl

/-- A token begins a clause that covers it and what follows, or it is a semicolon, or an `if` without
a condition. -/
theorem read?_spec (token : Token) (rest : List Token) :
    (token.kind = .separator .semicolon ∧ read? token rest = none) ∨
      (∃ clause front behind, rest = front ++ behind ∧
        read? token rest = some (clause, front.length) ∧ clause.Covers (token :: front) ∧
          clause.EndsBefore behind.head?) ∨
      ∃ e, token.kind = .keyword .ifWord ∧ read? token rest = some (.malformed e, rest.length) ∧
        LacksCondition rest e := by
  unfold read?
  split
  · rename_i hkind
    exact .inl ⟨hkind, rfl⟩
  · rename_i hkind
    exact .inr (.inl ⟨_, [], rest, rfl, rfl, .blockOpen hkind, trivial⟩)
  · rename_i hkind
    exact .inr (.inl ⟨_, [], rest, rfl, rfl, .blockClose hkind, trivial⟩)
  · rename_i hkind
    exact .inr (.inl ⟨_, [], rest, rfl, rfl, .elseMark hkind, trivial⟩)
  · rename_i hkind
    rcases readCondition_spec hkind rest with
      ⟨inner, front, behind, rfl, hread, hcovers⟩ | ⟨e, hread, hlacks⟩
    · exact .inr (.inl ⟨_, front, behind, rfl, congrArg some hread, hcovers, trivial⟩)
    · exact .inr (.inr ⟨e, hkind, congrArg some hread, hlacks⟩)
  · rename_i hkind
    obtain ⟨front, behind, rfl, hlength, hfront, hends⟩ := statementLength_spec 0 rest
    refine .inr (.inl ⟨.giveBack front, front, behind, rfl, ?_, .giveBack hkind hfront, hends⟩)
    dsimp only
    rw [← hlength, List.take_left]
  · rename_i hsemicolon hopen hclose helse hif hreturn
    have htoken : isBoundary token = false := by
      unfold isBoundary
      split <;> first | rfl | contradiction
    obtain ⟨front, behind, rfl, hlength, hfront, hends⟩ :=
      statementLength_spec (nesting 0 token) rest
    refine .inr (.inl ⟨.statement (token :: front), front, behind, rfl, ?_,
      .statement (unbroken_cons htoken hfront) (List.cons_ne_nil _ _), hends⟩)
    dsimp only
    rw [← hlength, List.take_left]

/-- The clauses of a line tile it. -/
theorem tiles_splitFrom (position : Nat) (tokens : List Token) :
    Tiles position tokens (splitFrom position tokens) := by
  fun_induction splitFrom position tokens with
  | case1 position => exact .done
  | case2 position token rest hread ih =>
    rcases read?_spec token rest with ⟨hkind, -⟩ | ⟨clause, front, behind, -, hsome, -⟩ | ⟨e, -, hsome, -⟩
    · exact .semicolon hkind ih
    · cases hread.symm.trans hsome
    · cases hread.symm.trans hsome
  | case3 position token rest clause n hread ih =>
    rcases read?_spec token rest with
      ⟨-, hnone⟩ | ⟨clause', front, behind, rfl, hsome, hcovers, hends⟩ | ⟨e, hkind, hsome, hlacks⟩
    · cases hread.symm.trans hnone
    · cases hread.symm.trans hsome
      rw [List.drop_left] at ih ⊢
      rw [Nat.add_assoc, Nat.add_comm 1] at ih ⊢
      exact .clause hcovers hends ih
    · cases hread.symm.trans hsome
      rw [List.drop_length, splitFrom]
      exact .malformed hkind hlacks

end Tiling

section Positions

theorem Covers.length_eq (h : clause.Covers tokens) : tokens.length = clause.width := by
  cases h with
  | condition | elseMark | blockOpen | blockClose | giveBack | statement => simp [width]

theorem Covers.length_pos (h : clause.Covers tokens) : 0 < tokens.length := by
  cases h with
  | statement htokens hne => exact List.length_pos_iff.mpr hne
  | condition | elseMark | blockOpen | blockClose | giveBack => exact Nat.succ_pos _

theorem Covers.not_malformed (h : clause.Covers tokens) : clause ≠ .malformed e := by
  rintro rfl
  cases h

namespace Tiles

variable {offset : Nat} {before : List Token}

theorem position_le (h : Tiles position tokens clauses) (hmem : (offset, clause) ∈ clauses) :
    position ≤ offset := by
  induction h with
  | done => cases hmem
  | semicolon _ _ ih => exact Nat.le_of_succ_le (ih hmem)
  | clause _ _ _ ih =>
    rcases List.mem_cons.mp hmem with heq | hrest
    · cases heq
      exact Nat.le_refl _
    · exact Nat.le_trans (Nat.le_add_right _ _) (ih hrest)
  | malformed =>
    obtain ⟨rfl, -⟩ := Prod.mk.inj (List.mem_singleton.mp hmem)
    exact Nat.le_refl _

/-- The spans are in order and do not overlap. -/
theorem pairwise (h : Tiles position tokens clauses) :
    clauses.Pairwise fun first second =>
      first.1 < second.1 ∧ first.1 + first.2.width ≤ second.1 := by
  induction h with
  | done => exact .nil
  | semicolon _ _ ih => exact ih
  | @clause position clause front rest clauses hcovers hends hrest ih =>
    refine .cons (fun second hmem => ?_) ih
    have hbehind := hrest.position_le hmem
    have hpositive := hcovers.length_pos
    rw [← hcovers.length_eq]
    exact ⟨Nat.lt_of_lt_of_le (Nat.lt_add_of_pos_right hpositive) hbehind, hbehind⟩
  | malformed => exact List.pairwise_singleton _ _

/-- The tokens of a clause are those it covers, from its position on. -/
theorem exists_slice (h : Tiles position tokens clauses) (hmem : (offset, clause) ∈ clauses)
    (hwhole : ∀ e, clause ≠ .malformed e) :
    ∃ before slice behind, tokens = before ++ (slice ++ behind) ∧
      position + before.length = offset ∧ clause.Covers slice ∧ clause.EndsBefore behind.head? := by
  induction h with
  | done => cases hmem
  | @semicolon position token rest clauses htoken hrest ih =>
    obtain ⟨before, slice, behind, rfl, rfl, hslice⟩ := ih hmem
    refine ⟨token :: before, slice, behind, rfl, ?_, hslice⟩
    rw [List.length_cons]
    omega
  | @clause position clause front rest clauses hcovers hends hrest ih =>
    rcases List.mem_cons.mp hmem with heq | hlater
    · cases heq
      exact ⟨[], front, rest, rfl, rfl, hcovers, hends⟩
    · obtain ⟨before, slice, behind, rfl, rfl, hslice⟩ := ih hlater
      refine ⟨front ++ before, slice, behind, by simp, ?_, hslice⟩
      rw [List.length_append]
      omega
  | malformed =>
    obtain ⟨-, rfl⟩ := Prod.mk.inj (List.mem_singleton.mp hmem)
    exact absurd rfl (hwhole _)

/-- An `if` without a condition is the last of the clauses. -/
theorem malformed_last (h : Tiles position tokens clauses)
    (hmem : (offset, .malformed e) ∈ clauses) :
    clauses.getLast? = some (offset, .malformed e) ∧
      ∃ before word rest, tokens = before ++ word :: rest ∧ position + before.length = offset ∧
        word.kind = .keyword .ifWord ∧ LacksCondition rest e := by
  induction h with
  | done => cases hmem
  | @semicolon position token rest clauses htoken hrest ih =>
    obtain ⟨hlast, before, word, behind, rfl, rfl, hword⟩ := ih hmem
    refine ⟨hlast, token :: before, word, behind, rfl, ?_, hword⟩
    rw [List.length_cons]
    omega
  | @clause position clause front rest clauses hcovers hends hrest ih =>
    rcases List.mem_cons.mp hmem with heq | hlater
    · obtain ⟨-, rfl⟩ := Prod.mk.inj heq
      exact absurd rfl hcovers.not_malformed
    · obtain ⟨hlast, before, word, behind, rfl, rfl, hword⟩ := ih hlater
      refine ⟨?_, front ++ before, word, behind, by simp, ?_, hword⟩
      · rw [List.getLast?_cons, hlast]
        rfl
      · rw [List.length_append]
        omega
  | @malformed position word rest e' hword hlacks =>
    cases List.mem_singleton.mp hmem
    exact ⟨rfl, [], word, rest, rfl, rfl, hword, hlacks⟩

/-- A token is a semicolon, or it is in the span of a clause, or an `if` without a condition keeps the
line from being read. -/
theorem accounts (h : Tiles position tokens clauses) {index : Nat}
    (htoken : tokens[index]? = some token) :
    token.kind = .separator .semicolon ∨
      (∃ offset clause, (offset, clause) ∈ clauses ∧ offset ≤ position + index ∧
        position + index < offset + clause.width) ∨
      ∃ offset e, (offset, .malformed e) ∈ clauses ∧ offset ≤ position + index := by
  induction h generalizing index with
  | done => cases htoken
  | @semicolon position first rest clauses hfirst hrest ih =>
    cases index with
    | zero =>
      cases htoken
      exact .inl hfirst
    | succ index =>
      rw [← Nat.add_assoc, Nat.add_right_comm]
      exact ih htoken
  | @clause position clause front rest clauses hcovers hends hrest ih =>
    by_cases hinside : index < front.length
    · refine .inr (.inl ⟨position, clause, List.mem_cons_self, Nat.le_add_right _ _, ?_⟩)
      rw [← hcovers.length_eq]
      omega
    · have hindex : position + front.length + (index - front.length) = position + index := by omega
      rw [List.getElem?_append_right (Nat.le_of_not_lt hinside)] at htoken
      have hlater := ih htoken
      rw [hindex] at hlater
      exact hlater.imp_right (.imp
        (fun ⟨offset, clause, hmem, hspan⟩ => ⟨offset, clause, List.mem_cons_of_mem _ hmem, hspan⟩)
        fun ⟨offset, e, hmem, hbehind⟩ => ⟨offset, e, List.mem_cons_of_mem _ hmem, hbehind⟩)
  | malformed => exact .inr (.inr ⟨_, _, List.mem_singleton.mpr rfl, Nat.le_add_right _ _⟩)

end Tiles

end Positions

end BuildScript.Clause
