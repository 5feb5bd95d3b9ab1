import BuildScript.Proofs.Expr.Sequences

/-!
Operators and operands on two stacks of their own. A waiting operator has no left operand with it
here, so it has to find its operands on their stack. They are always there, and the tree is the one
that waiting operators with their left operands make.
-/

namespace BuildScript

namespace TwoStacks

variable (missing : SyntaxError)

/-- The operator takes its operands off their stack. -/
def combine (op : Operator) : List Expr → Except SyntaxError (List Expr)
  | [] => .error missing
  | right :: rest =>
    if op.isBinary then
      match rest with
      | [] => .error missing
      | left :: rest => .ok (.binary op left right :: rest)
    else .ok (.unary op right :: rest)

/-- Lets the operators that go before `incoming` take their operands. -/
def reduce (incoming : Operator) :
    List Operator → List Expr → Except SyntaxError (List Operator × List Expr)
  | [], operands => .ok ([], operands)
  | op :: operators, operands =>
    if op.reducesBefore incoming then do reduce incoming operators (← combine missing op operands)
    else .ok (op :: operators, operands)

/-- Every operator takes its operands, and one tree is left. -/
def finish : List Operator → List Expr → Except SyntaxError Expr
  | [], [] => .error missing
  | [], tree :: _ => .ok tree
  | op :: operators, operands => do finish operators (← combine missing op operands)

/-- Reads terms and the operators between them, and reduces as they come. Each round takes tokens
off, so their number is fuel enough. -/
def readFrom : Nat → List Operator → List Expr → List Token → Except SyntaxError (Expr × List Token)
  | 0, _, _, _ => .error .unexpectedEnd
  | fuel + 1, operators, operands, tokens => do
    let (term, rest) ← Expr.termOf tokens
    let operators := term.prefixes.reverse ++ operators
    let operands := term.operand :: operands
    match Expr.readBinary? rest with
    | none => return (← finish missing operators operands, rest)
    | some (op, rest) =>
      let (operators, operands) ← reduce missing op operators operands
      readFrom fuel (op :: operators) operands rest

/-- An expression, read with `missing` as the error of an operator that does not find its
operands. -/
def read (tokens : List Token) : Except SyntaxError (Expr × List Token) :=
  readFrom missing (tokens.length + 1) [] [] tokens

end TwoStacks

namespace Waiting

/-- The left operand, if the operator has one. -/
def left? : Waiting → Option Expr
  | unary _ => none
  | binary left _ => some left

/-- The operator has a left operand with it if it takes two. -/
def Proper (waiting : Waiting) : Prop := waiting.op.isBinary = waiting.left?.isSome

variable {missing : SyntaxError} {stack : List Waiting} {waiting : Waiting} {incoming : Operator}
  {operand : Expr}

theorem combine_eq (h : waiting.Proper) (operand : Expr) (stack : List Waiting) :
    TwoStacks.combine missing waiting.op (operand :: (waiting :: stack).filterMap left?) =
      .ok (waiting.apply operand :: stack.filterMap left?) := by
  cases waiting with
  | unary op =>
    have hop : op.isBinary = false := h
    simp only [TwoStacks.combine, Waiting.op, List.filterMap_cons, left?, hop, Waiting.apply]
    rfl
  | binary left op =>
    have hop : op.isBinary = true := h
    simp only [TwoStacks.combine, Waiting.op, List.filterMap_cons, left?, hop, Waiting.apply]
    rfl

theorem reduce_stacks (h : ∀ waiting ∈ stack, waiting.Proper) :
    TwoStacks.reduce missing incoming (stack.map op) (operand :: stack.filterMap left?) =
        .ok ((reduce incoming stack operand).1.map op,
          (reduce incoming stack operand).2 :: (reduce incoming stack operand).1.filterMap left?) ∧
      ∀ waiting ∈ (reduce incoming stack operand).1, waiting.Proper := by
  induction stack generalizing operand with
  | nil => exact ⟨rfl, nofun⟩
  | cons waiting rest ih =>
    rw [List.map_cons, TwoStacks.reduce, Waiting.reduce]
    by_cases hreduces : waiting.op.reducesBefore incoming = true
    · rw [if_pos hreduces, if_pos hreduces, combine_eq (h waiting List.mem_cons_self)]
      exact ih fun other hother => h other (List.mem_cons_of_mem _ hother)
    · rw [if_neg hreduces, if_neg hreduces]
      exact ⟨rfl, h⟩

theorem finish_stacks (h : ∀ waiting ∈ stack, waiting.Proper) :
    TwoStacks.finish missing (stack.map op) (operand :: stack.filterMap left?) =
      .ok (finish stack operand) := by
  induction stack generalizing operand with
  | nil => rfl
  | cons waiting rest ih =>
    rw [List.map_cons, TwoStacks.finish, combine_eq (h waiting List.mem_cons_self)]
    exact ih fun other hother => h other (List.mem_cons_of_mem _ hother)

end Waiting

namespace Chain

open Waiting (left? Proper)

variable {stack : List Waiting} {signs : List Operator}

theorem pushPrefixes_eq_append (signs : List Operator) (stack : List Waiting) :
    pushPrefixes signs stack = signs.reverse.map .unary ++ stack := by
  induction signs generalizing stack with
  | nil => rfl
  | cons op rest ih =>
    have hrest : pushPrefixes (op :: rest) stack = pushPrefixes rest (.unary op :: stack) := rfl
    rw [hrest, ih, List.reverse_cons, List.map_append, List.append_assoc]
    rfl

theorem isBinary_of_isUnary {op : Operator} (h : op.isUnary = true) : op.isBinary = false := by
  cases op <;> first | rfl | cases h

/-- What is on the two stacks after the operators before an operand. -/
theorem pushPrefixes_stacks (hsigns : ∀ op ∈ signs, op.isUnary = true)
    (h : ∀ waiting ∈ stack, waiting.Proper) :
    (pushPrefixes signs stack).map Waiting.op = signs.reverse ++ stack.map Waiting.op ∧
      (pushPrefixes signs stack).filterMap left? = stack.filterMap left? ∧
        ∀ waiting ∈ pushPrefixes signs stack, waiting.Proper := by
  rw [pushPrefixes_eq_append]
  refine ⟨?_, ?_, ?_⟩
  · rw [List.map_append, List.map_map]
    exact congrArg (· ++ _) (List.map_id _)
  · rw [List.filterMap_append, List.filterMap_map]
    exact congrArg (· ++ _) (List.filterMap_eq_nil_iff.mpr fun _ _ => rfl)
  · intro waiting hmem
    rcases List.mem_append.mp hmem with hmem | hmem
    · obtain ⟨op, hop, rfl⟩ := List.mem_map.mp hmem
      exact isBinary_of_isUnary (hsigns op (List.mem_reverse.mp hop))
    · exact h waiting hmem

end Chain

namespace TwoStacks

open Waiting (left? Proper)

/-- The loop on two stacks reads what the terms and operators that follow make of the stack. -/
theorem readFrom_eq (missing : SyntaxError) {fuel : Nat} {stack : List Waiting}
    {tokens : List Token} (hfuel : tokens.length < fuel) (h : ∀ waiting ∈ stack, waiting.Proper) :
    readFrom missing fuel (stack.map Waiting.op) (stack.filterMap left?) tokens = (do
      let (term, rest) ← Expr.termOf tokens
      let (others, rest) ← Expr.othersOf rest
      return (Chain.resolve (Chain.pushPrefixes term.prefixes stack) term.operand others,
        rest)) := by
  induction fuel generalizing stack tokens with
  | zero => omega
  | succ fuel ih =>
    rw [readFrom]
    cases hread : Expr.termOf tokens with
    | error e => rfl
    | ok read =>
      obtain ⟨term, rest⟩ := read
      have hlength := Expr.length_termOf_lt hread
      obtain ⟨hops, hlefts, hproper⟩ := Chain.pushPrefixes_stacks (Expr.termOf_isUnary hread) h
      dsimp only [bind, Except.bind]
      -- The signs wait above what waited before, and their operand is on top of the other stack.
      rw [← hops, ← hlefts, Expr.othersOf_eq]
      generalize Chain.pushPrefixes term.prefixes stack = pushed at hproper ⊢
      cases hbinary : Expr.readBinary? rest with
      | none =>
        dsimp only
        rw [Waiting.finish_stacks hproper]
        rfl
      | some joined =>
        obtain ⟨op, middle⟩ := joined
        obtain ⟨token, rfl, -, htwo⟩ := Expr.readBinary?_eq_some hbinary
        obtain ⟨hreduce, hkept⟩ := @Waiting.reduce_stacks missing pushed op term.operand hproper
        dsimp only
        rw [hreduce]
        generalize hreduced : Waiting.reduce op pushed term.operand = reduced at hkept
        obtain ⟨kept, left⟩ := reduced
        -- What the reduction left is the left operand of the new operator, which waits in its turn.
        have hjoined : ∀ waiting ∈ Waiting.binary left op :: kept, waiting.Proper := by
          rintro waiting (_ | ⟨_, hmem⟩)
          · exact htwo
          · exact hkept waiting hmem
        have hmiddle : middle.length < fuel := by
          rw [List.length_cons] at hlength
          omega
        have hrest : readFrom missing fuel (op :: kept.map Waiting.op)
            (left :: kept.filterMap left?) middle = _ := ih hmiddle hjoined
        dsimp only
        rw [hrest]
        cases Expr.termOf middle with
        | error e => rfl
        | ok read =>
          obtain ⟨next, rest'⟩ := read
          dsimp only [bind, Except.bind]
          cases Expr.othersOf rest' with
          | error e => rfl
          | ok others =>
            dsimp only [pure, Except.pure]
            rw [Chain.resolve, hreduced]

/-- With operators and operands on two stacks neither runs short. -/
theorem read_eq (missing : SyntaxError) (tokens : List Token) :
    read missing tokens = Expr.expressionOf tokens := by
  have hnone : ∀ waiting ∈ ([] : List Waiting), waiting.Proper := nofun
  exact (readFrom_eq missing (Nat.lt_succ_self _) hnone).trans (Expr.expressionOf_eq tokens).symm

end TwoStacks

end BuildScript
