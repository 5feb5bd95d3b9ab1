import BuildScript.Proofs.Expr.Stacks

/-!
Operator precedence. While a chain is resolved, the operators that wait keep each other back from
the outermost to the innermost, and whatever one of them takes is grouped as the operators ask. So
every chain becomes the one tree that they ask for, and what is wrong with an expression is wrong
with one of its operands.
-/

namespace BuildScript

/-- An operator whose right operand is not complete, with the tree to its left. -/
inductive Pending where
  | unary (op : Operator)
  | binary (left : Grouping) (op : Operator)

namespace Pending

def waiting : Pending → Waiting
  | unary op => .unary op
  | binary left op => .binary left.expr op

def apply (pending : Pending) (operand : Grouping) : Grouping :=
  match pending with
  | unary op => .unary op operand
  | binary left op => .binary left op operand

def reading : Pending → List Word
  | unary op => [.unary op]
  | binary left op => left.reading ++ [.binary op]

/-- Whether the right operand may have the operator at its root. -/
def Takes (pending : Pending) (op : Operator) : Prop :=
  match pending with
  | unary _ => False
  | binary _ waiting => waiting.reducesBefore op = false

/-- What waits is in order: left operands are grouped and complete, and each operator is kept back
by the one before it. -/
def Stacked : List Pending → Prop
  | [] => True
  | unary op :: rest => op.isUnary = true ∧ Stacked rest
  | binary left op :: rest =>
    (∀ child ∈ left.root?, child.reducesBefore op = true) ∧ left.Ordered ∧
      (∀ before ∈ rest.head?, before.Takes op) ∧ Stacked rest

/-- The tree fits as the operand of what waits last. -/
def Fits (stack : List Pending) (tree : Grouping) : Prop :=
  tree.Ordered ∧ ∀ last ∈ stack.head?, ∀ op ∈ tree.root?, last.Takes op

/-- What was read so far, innermost last. -/
def readings (stack : List Pending) : List Word := stack.reverse.flatMap reading

variable {stack : List Pending} {pending : Pending} {tree : Grouping} {incoming : Operator}

theorem expr_apply (pending : Pending) (tree : Grouping) :
    pending.waiting.apply tree.expr = (pending.apply tree).expr := by
  cases pending <;> rfl

theorem reading_apply (pending : Pending) (tree : Grouping) :
    (pending.apply tree).reading = pending.reading ++ tree.reading := by
  cases pending with
  | unary op => rfl
  | binary left op => simp [apply, Grouping.reading, reading]

theorem readings_cons : readings (pending :: stack) = readings stack ++ pending.reading := by
  simp [readings]

theorem Stacked.tail (h : Stacked (pending :: stack)) : Stacked stack := by
  cases pending with
  | unary op => exact h.2
  | binary left op => exact h.2.2.2

theorem Stacked.fits_operand (expr : Expr) : Fits stack (.operand expr) :=
  ⟨trivial, fun _ _ _ hop => nomatch hop⟩

/-- What waits last takes its operand, and the tree fits what waits before it. -/
theorem Stacked.apply (h : Stacked (pending :: stack)) (hfits : Fits (pending :: stack) tree) :
    Fits stack (pending.apply tree) := by
  obtain ⟨hordered, htakes⟩ := hfits
  have htakes := htakes pending rfl
  cases pending with
  | unary op =>
    refine ⟨⟨?_, hordered⟩, fun _ _ _ hroot => nomatch hroot⟩
    cases hroot : tree.root? with
    | none => rfl
    | some child => exact (htakes child hroot).elim
  | binary left op =>
    obtain ⟨hleft, hl, hbefore, -⟩ := h
    refine ⟨⟨hleft, htakes, hl, hordered⟩, fun before hmem child hchild => ?_⟩
    cases hchild
    exact hbefore before hmem

theorem finish_eq (h : Stacked stack) (hfits : Fits stack tree) :
    ∃ whole : Grouping, Waiting.finish (stack.map waiting) tree.expr = whole.expr ∧
      whole.Ordered ∧ whole.reading = readings stack ++ tree.reading := by
  induction stack generalizing tree with
  | nil => exact ⟨tree, rfl, hfits.1, rfl⟩
  | cons pending rest ih =>
    obtain ⟨whole, hwhole, hordered, hreading⟩ := ih h.tail (h.apply hfits)
    refine ⟨whole, ?_, hordered, ?_⟩
    · rw [← hwhole, ← expr_apply]
      rfl
    · rw [hreading, reading_apply, readings_cons, List.append_assoc]

/-- Before an operator joins, those that go before it take what was read last. Then it can wait. -/
theorem reduce_eq (h : Stacked stack) (hfits : Fits stack tree) (hincoming : incoming.isBinary = true)
    (hroot : ∀ child ∈ tree.root?, child.reducesBefore incoming = true) :
    ∃ (kept : List Pending) (left : Grouping),
      Waiting.reduce incoming (stack.map waiting) tree.expr = (kept.map waiting, left.expr) ∧
        Stacked (.binary left incoming :: kept) ∧
          readings kept ++ left.reading = readings stack ++ tree.reading := by
  induction stack generalizing tree with
  | nil => exact ⟨[], tree, rfl, ⟨hroot, hfits.1, nofun, trivial⟩, rfl⟩
  | cons pending rest ih =>
    by_cases hreduces : pending.waiting.op.reducesBefore incoming = true
    · have happlied : ∀ child ∈ (pending.apply tree).root?, child.reducesBefore incoming = true := by
        intro child hchild
        cases pending with
        | unary op => cases hchild
        | binary left op =>
          cases hchild
          exact hreduces
      obtain ⟨kept, left, hsame, hstacked, hreading⟩ := ih h.tail (h.apply hfits) happlied
      refine ⟨kept, left, ?_, hstacked, ?_⟩
      · rw [List.map_cons, Waiting.reduce, if_pos hreduces, expr_apply]
        exact hsame
      · rw [hreading, reading_apply, readings_cons, List.append_assoc]
    · -- A sign always goes before an operator that takes two, so what stays waits with a left operand.
      refine ⟨pending :: rest, tree, ?_, ⟨hroot, hfits.1, ?_, h⟩, rfl⟩
      · rw [List.map_cons, Waiting.reduce, if_neg hreduces]
      · rintro _ ⟨⟩
        cases pending with
        | unary op => exact absurd (Operator.isUnary_reducesBefore h.1 hincoming) hreduces
        | binary left op => exact eq_false_of_ne_true hreduces

theorem pushPrefixes_eq {signs : List Operator} (h : Stacked stack)
    (hsigns : ∀ op ∈ signs, op.isUnary = true) :
    ∃ pushed : List Pending,
      Chain.pushPrefixes signs (stack.map waiting) = pushed.map waiting ∧ Stacked pushed ∧
        readings pushed = readings stack ++ signs.map .unary := by
  induction signs generalizing stack with
  | nil => exact ⟨stack, rfl, h, (List.append_nil _).symm⟩
  | cons op rest ih =>
    have hop : Stacked (.unary op :: stack) := ⟨hsigns op List.mem_cons_self, h⟩
    obtain ⟨pushed, hpushed, hstacked, hreading⟩ := ih hop fun other hother =>
      hsigns other (List.mem_cons_of_mem _ hother)
    refine ⟨pushed, hpushed, hstacked, ?_⟩
    rw [hreading, readings_cons]
    simp [reading]

theorem resolve_eq {others : List (Operator × Term)} (h : Stacked stack) (expr : Expr)
    (hothers : ∀ other ∈ others,
      other.1.isBinary = true ∧ ∀ op ∈ other.2.prefixes, op.isUnary = true) :
    ∃ whole : Grouping, Chain.resolve (stack.map waiting) expr others = whole.expr ∧
      whole.Ordered ∧ whole.reading = readings stack ++ .operand expr :: othersReading others := by
  induction others generalizing stack expr with
  | nil => exact finish_eq h (Stacked.fits_operand expr)
  | cons other rest ih =>
    obtain ⟨op, term⟩ := other
    obtain ⟨hbinary, hsigns⟩ := hothers (op, term) List.mem_cons_self
    obtain ⟨kept, left, hreduce, hkept, hleft⟩ :=
      reduce_eq h (Stacked.fits_operand expr) hbinary fun _ hchild => nomatch hchild
    obtain ⟨pushed, hpushed, hstacked, hreading⟩ := pushPrefixes_eq hkept hsigns
    obtain ⟨whole, hwhole, hordered, hall⟩ := ih hstacked term.operand fun other hother =>
      hothers other (List.mem_cons_of_mem _ hother)
    refine ⟨whole, ?_, hordered, ?_⟩
    · rw [← hwhole, ← hpushed]
      rw [Chain.resolve]
      have hreduce' : Waiting.reduce op (stack.map waiting) expr = (kept.map waiting, left.expr) :=
        hreduce
      rw [hreduce']
      rfl
    · rw [hall, hreading, readings_cons]
      have hbefore : readings kept ++ left.reading = readings stack ++ [.operand expr] := hleft
      simp only [reading, ← List.append_assoc, hbefore]
      simp [othersReading, Term.reading]

end Pending

/-- A chain becomes the one tree its operators ask for. -/
theorem Chain.Sorted.toExpr_eq {chain : Chain} (h : chain.Sorted) :
    ∃ tree : Grouping, chain.toExpr = tree.expr ∧ tree.reading = chain.reading ∧ tree.Ordered := by
  obtain ⟨hfirst, hothers⟩ := h
  have hnone : Pending.Stacked [] := trivial
  obtain ⟨pushed, hpushed, hstacked, hreading⟩ := Pending.pushPrefixes_eq hnone hfirst
  obtain ⟨tree, htree, hordered, hall⟩ := Pending.resolve_eq hstacked chain.first.operand hothers
  refine ⟨tree, ?_, ?_, hordered⟩
  · rw [← htree, ← hpushed]
    rfl
  · rw [hall, hreading]
    simp [Chain.reading, Term.reading, Pending.readings]

namespace Expr

/-- Operands joined by operators become the one tree that the operators ask for, and reading fails
only where an operand cannot be read. With operators and operands on two stacks it is the same,
whatever the error of an operator without operands would be. -/
theorem sequence_grouped (tokens : List Token) {fuel : Nat} (hfuel : enoughFuel tokens ≤ fuel) :
    (∀ chain rest, ChainAt tokens chain rest → ∃ tree : Grouping,
      readExpression fuel tokens = .ok (tree.expr, rest) ∧ tree.reading = chain.reading ∧
        tree.Ordered ∧
          ∀ other : Grouping, other.reading = chain.reading → other.Ordered → other = tree) ∧
      (∀ e, readExpression fuel tokens = .error e → ChainFails e tokens) ∧
        ∀ missing, TwoStacks.read missing tokens = readExpression fuel tokens := by
  have hsame : readExpression fuel tokens = expressionOf tokens :=
    (agree_expression (Nat.le_of_succ_le hfuel)).same
  rw [hsame]
  refine ⟨fun chain rest h => ?_, fun e herror => ?_, fun missing => TwoStacks.read_eq missing tokens⟩
  · obtain ⟨tree, htree, hreading, hordered⟩ := h.sorted.toExpr_eq
    refine ⟨tree, ?_, hreading, hordered, fun other hother hordered' => ?_⟩
    · rw [h.expressionOf_eq, htree]
    · exact hordered'.unique hordered (hother.trans hreading.symm)
  · rcases chainAt_or_fails tokens with ⟨chain, rest, hchain⟩ | ⟨e', hfails⟩
    · rw [hchain.expressionOf_eq] at herror
      cases herror
    · rw [hfails.expressionOf_eq] at herror
      cases herror
      exact hfails

/-- The tokens of `-a ** b + c`. -/
def signedPower : List Token :=
  [⟨.operator .subtract, "-", true⟩, ⟨.identifier "a", "a", false⟩,
    ⟨.operator .power, "**", true⟩, ⟨.identifier "b", "b", true⟩,
    ⟨.operator .add, "+", true⟩, ⟨.identifier "c", "c", true⟩]

/-- A sign goes before everything, so the power is that of `-a`. -/
theorem signedPower_grouped : ∃ tree : Grouping,
    readExpression (enoughFuel signedPower) signedPower = .ok (tree.expr, []) ∧
      tree = .binary (.binary (.unary .negate (.operand (.identifier "a"))) .power
        (.operand (.identifier "b"))) .add (.operand (.identifier "c")) := by
  have hc : ChainAt (signedPower.drop 5) ⟨⟨[], .identifier "c"⟩, []⟩ [] :=
    .last (.operand rfl) nofun
  have hb : ChainAt (signedPower.drop 3)
      ⟨⟨[], .identifier "b"⟩, [(.add, ⟨[], .identifier "c"⟩)]⟩ [] :=
    .joined (.operand rfl) ⟨rfl, rfl⟩ hc
  have ha : TermAt signedPower ⟨[.negate], .identifier "a"⟩ (signedPower.drop 2) :=
    .sign rfl (.operand rfl)
  have hchain : ChainAt signedPower
      ⟨⟨[.negate], .identifier "a"⟩,
        [(.power, ⟨[], .identifier "b"⟩), (.add, ⟨[], .identifier "c"⟩)]⟩ [] :=
    .joined ha ⟨rfl, rfl⟩ hb
  obtain ⟨tree, hread, -, -, hunique⟩ := (sequence_grouped signedPower (Nat.le_refl _)).1 _ _ hchain
  refine ⟨tree, hread, (hunique _ rfl ?_).symm⟩
  simp [Grouping.Ordered, Grouping.root?, Operator.reducesBefore, Operator.precedence]

end Expr

end BuildScript
