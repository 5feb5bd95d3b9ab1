import BuildScript.Expr.Chain

/-!
The grouping of operands by operators. A tree is grouped as the operators ask if no operator stands
below one that should have been applied after it; among all trees with the same in-order reading
there is exactly one such tree, and it is the one a chain becomes.
-/

namespace BuildScript

namespace Operator

variable {a b c : Operator}

/-- Operators of one precedence group alike. -/
theorem associativity_congr (h : a.precedence = b.precedence) :
    a.associativity = b.associativity := by
  have hlevel (op : Operator) : op.associativity =
      if op.precedence = 2 ∨ op.precedence = 3 ∨ op.precedence = 15 then .right else .left := by
    cases op <;> rfl
  rw [hlevel, hlevel, h]

theorem reducesBefore_iff : a.reducesBefore b = true ↔
    a.precedence < b.precedence ∨ a.precedence = b.precedence ∧ b.associativity = .left := by
  simp only [reducesBefore, Bool.or_eq_true, Bool.and_eq_true, decide_eq_true_eq, beq_iff_eq]

theorem reducesBefore_trans (hab : a.reducesBefore b = true) (hbc : b.reducesBefore c = true) :
    a.reducesBefore c = true := by
  rw [reducesBefore_iff] at *
  grind

theorem reducesBefore_of_not (hba : b.reducesBefore a = false) (hbc : b.reducesBefore c = true) :
    a.reducesBefore c = true := by
  rw [← Bool.not_eq_true, reducesBefore_iff] at hba
  rw [reducesBefore_iff] at *
  have hlevel := @associativity_congr a c
  grind

theorem not_reducesBefore_of (hab : a.reducesBefore b = false) (hcb : c.reducesBefore b = true) :
    a.reducesBefore c = false := by
  rw [← Bool.not_eq_true, reducesBefore_iff] at *
  have hlevel := @associativity_congr b c
  grind

theorem not_reducesBefore_trans (hab : a.reducesBefore b = false)
    (hbc : b.reducesBefore c = false) : a.reducesBefore c = false := by
  rw [← Bool.not_eq_true, reducesBefore_iff] at *
  grind

/-- Whether the operator stands before its operand. -/
def isUnary : Operator → Bool
  | not | negate => true
  | _ => false

/-- Operators before an operand go before all between operands. -/
theorem isUnary_reducesBefore (ha : a.isUnary = true) (hb : b.isBinary = true) :
    a.reducesBefore b = true := by
  cases a <;> simp only [isUnary, Bool.false_eq_true] at ha <;> cases b <;> first | rfl | cases hb

end Operator

/-- How operands are grouped by the operators before and between them. What is inside of an operand
is of no concern. -/
inductive Grouping where
  | operand (expr : Expr)
  | unary (op : Operator) (inner : Grouping)
  | binary (left : Grouping) (op : Operator) (right : Grouping)

/-- What is read in a chain, one after the other. -/
inductive Word where
  | operand (expr : Expr)
  | unary (op : Operator)
  | binary (op : Operator)

def Term.reading (term : Term) : List Word := term.prefixes.map .unary ++ [.operand term.operand]

/-- The reading of the terms after the first, each with its operator. -/
def othersReading (others : List (Operator × Term)) : List Word :=
  others.flatMap fun (op, term) => .binary op :: term.reading

def Chain.reading (chain : Chain) : List Word := chain.first.reading ++ othersReading chain.others

/-- The terms of the chain have operators before them, and operators between them. -/
def Chain.Sorted (chain : Chain) : Prop :=
  (∀ op ∈ chain.first.prefixes, op.isUnary = true) ∧
    ∀ other ∈ chain.others, other.1.isBinary = true ∧ ∀ op ∈ other.2.prefixes, op.isUnary = true

namespace Grouping

def expr : Grouping → Expr
  | operand expr => expr
  | unary op inner => .unary op inner.expr
  | binary left op right => .binary op left.expr right.expr

/-- The tree from left to right. -/
def reading : Grouping → List Word
  | operand expr => [.operand expr]
  | unary op inner => .unary op :: inner.reading
  | binary left op right => left.reading ++ .binary op :: right.reading

/-- The binary operator at the root. -/
def root? : Grouping → Option Operator
  | binary _ op _ => some op
  | _ => none

/-- The grouping is the one the operators ask for: a left operand is complete before its operator
comes, the operator at the root of a right operand is not kept out, and an operator before an
operand takes no more than it. -/
def Ordered : Grouping → Prop
  | operand _ => True
  | unary _ inner => inner.root? = none ∧ inner.Ordered
  | binary left op right =>
    (∀ child ∈ left.root?, child.reducesBefore op = true) ∧
      (∀ child ∈ right.root?, op.reducesBefore child = false) ∧ left.Ordered ∧ right.Ordered

variable {tree : Grouping} {op child : Operator}

/-- Without a binary operator at its root an ordered tree has none. -/
theorem Ordered.no_binary (h : tree.Ordered) (hroot : tree.root? = none) :
    .binary op ∉ tree.reading := by
  induction tree with
  | operand expr => simp [reading]
  | unary other inner ih => simpa [reading] using ih h.2 h.1
  | binary left other right => cases hroot

/-- In a left operand every operator is complete before the operator that follows. -/
theorem Ordered.left_reduces (h : tree.Ordered)
    (hroot : ∀ child ∈ tree.root?, child.reducesBefore op = true)
    (hmem : .binary child ∈ tree.reading) : child.reducesBefore op = true := by
  induction tree with
  | operand expr => simp [reading] at hmem
  | unary other inner ih => exact absurd hmem (h.no_binary rfl)
  | binary left other right ihl ihr =>
    obtain ⟨hleft, hright, hl, hr⟩ := h
    have hother : other.reducesBefore op = true := hroot other rfl
    simp only [reading, List.mem_append, List.mem_cons, Word.binary.injEq] at hmem
    rcases hmem with hmem | rfl | hmem
    · refine ihl hl (fun o ho => ?_) hmem
      exact Operator.reducesBefore_trans (hleft o ho) hother
    · exact hother
    · refine ihr hr (fun o ho => ?_) hmem
      exact Operator.reducesBefore_of_not (hright o ho) hother

/-- In a right operand no operator is kept out by the operator before it. -/
theorem Ordered.right_waits (h : tree.Ordered)
    (hroot : ∀ child ∈ tree.root?, op.reducesBefore child = false)
    (hmem : .binary child ∈ tree.reading) : op.reducesBefore child = false := by
  induction tree with
  | operand expr => simp [reading] at hmem
  | unary other inner ih => exact absurd hmem (h.no_binary rfl)
  | binary left other right ihl ihr =>
    obtain ⟨hleft, hright, hl, hr⟩ := h
    have hother : op.reducesBefore other = false := hroot other rfl
    simp only [reading, List.mem_append, List.mem_cons, Word.binary.injEq] at hmem
    rcases hmem with hmem | rfl | hmem
    · refine ihl hl (fun o ho => ?_) hmem
      exact Operator.not_reducesBefore_of hother (hleft o ho)
    · exact hother
    · refine ihr hr (fun o ho => ?_) hmem
      exact Operator.not_reducesBefore_trans hother (hright o ho)

/-- Two ordered trees cannot be divided at different operators: each of the two would have to go
before the other. -/
theorem Ordered.same_division {left right left' right' : Grouping} {op' : Operator}
    (h : (binary left op right).Ordered) (h' : (binary left' op' right').Ordered)
    {between : List Word} (hleft : left'.reading = left.reading ++ between)
    (hright : .binary op :: right.reading = between ++ .binary op' :: right'.reading) :
    between = [] := by
  cases between with
  | nil => rfl
  | cons word rest =>
    obtain ⟨rfl, hrest⟩ := List.cons.inj hright
    have hbefore : op.reducesBefore op' = true :=
      h'.2.2.1.left_reduces h'.1 (by simp [hleft])
    have hafter : op.reducesBefore op' = false :=
      h.2.2.2.right_waits h.2.1 (by simp [hrest])
    rw [hbefore] at hafter
    cases hafter

/-- A tree without a binary operator at its root is not read as one that has one. -/
theorem Ordered.reading_ne (h : tree.Ordered) (hroot : tree.root? = none) (left right : Grouping) :
    tree.reading ≠ (binary left op right).reading := by
  have hnone : .binary op ∉ tree.reading := h.no_binary hroot
  intro hreading
  rw [hreading] at hnone
  simp [reading] at hnone

/-- An ordered tree is determined by its reading. -/
theorem Ordered.unique {other : Grouping} (h : tree.Ordered) (h' : other.Ordered)
    (hreading : tree.reading = other.reading) : tree = other := by
  -- The other tree has the same form: its first word, or a binary operator in it, says which.
  induction tree generalizing other with
  | operand expr =>
    cases other with
    | operand expr' =>
      cases hreading
      rfl
    | unary op inner => cases hreading
    | binary left op right => exact absurd hreading (h.reading_ne rfl left right)
  | unary op inner ih =>
    cases other with
    | operand expr => cases hreading
    | unary op' inner' =>
      obtain ⟨hop, hinner⟩ := List.cons.inj hreading
      cases hop
      rw [ih h.2 h'.2 hinner]
    | binary left op' right => exact absurd hreading (h.reading_ne rfl left right)
  | binary left op right ihl ihr =>
    cases other with
    | operand expr => exact absurd hreading.symm (h'.reading_ne rfl left right)
    | unary op' inner => exact absurd hreading.symm (h'.reading_ne rfl left right)
    | binary left' op' right' =>
      -- One left operand begins with the other; what stands between them is nothing.
      have hsame : left.reading = left'.reading ∧
          Word.binary op :: right.reading = Word.binary op' :: right'.reading := by
        rcases List.append_eq_append_iff.mp hreading with
          ⟨between, hleft, hright⟩ | ⟨between, hleft, hright⟩
        · obtain rfl := h.same_division h' hleft hright
          exact ⟨by simpa using hleft.symm, hright⟩
        · obtain rfl := h'.same_division h hleft hright
          exact ⟨by simpa using hleft, hright.symm⟩
      obtain ⟨hleft, hright⟩ := hsame
      obtain ⟨hop, hrest⟩ := List.cons.inj hright
      cases hop
      rw [ihl h.2.2.1 h'.2.2.1 hleft, ihr h.2.2.2 h'.2.2.2 hrest]

end Grouping

end BuildScript
