import BuildScript.Proofs.Expr.Stacks

/-!
Expressions around a part. A context makes an expression of a part that stands in it at one place. The
operators that wait on the stack and those that come later only put more around an operand, so the tree
of a sequence of terms is a context of each of its terms.
-/

namespace BuildScript.Expr

/-- What makes an expression of a part and has it at one place. -/
inductive Context : (Expr → Expr) → Prop
  | here : Context fun part => part
  | unary (op : Operator) {f : Expr → Expr} (h : Context f) : Context fun part => .unary op (f part)
  | left (op : Operator) (right : Expr) {f : Expr → Expr} (h : Context f) :
    Context fun part => .binary op (f part) right
  | right (op : Operator) (left : Expr) {f : Expr → Expr} (h : Context f) :
    Context fun part => .binary op left (f part)
  | member (name : String) {f : Expr → Expr} (h : Context f) : Context fun part => .member (f part) name
  | callee (arguments : List Expr) {f : Expr → Expr} (h : Context f) :
    Context fun part => .call (f part) arguments
  | argument (callee : Expr) (before after : List Expr) {f : Expr → Expr} (h : Context f) :
    Context fun part => .call callee (before ++ f part :: after)
  | castArgument (type : DataType) (before after : List Expr) {f : Expr → Expr} (h : Context f) :
    Context fun part => .cast type (before ++ f part :: after)
  | element (before after : List Expr) {f : Expr → Expr} (h : Context f) :
    Context fun part => .arrayLiteral (before ++ f part :: after)

theorem Context.comp {f g : Expr → Expr} (hf : Context f) (hg : Context g) :
    Context fun part => f (g part) := by
  induction hf with
  | here => exact hg
  | unary op _ ih => exact .unary op ih
  | left op right _ ih => exact .left op right ih
  | right op left _ ih => exact .right op left ih
  | member name _ ih => exact .member name ih
  | callee arguments _ ih => exact .callee arguments ih
  | argument callee before after _ ih => exact .argument callee before after ih
  | castArgument type before after _ ih => exact .castArgument type before after ih
  | element before after _ ih => exact .element before after ih

end BuildScript.Expr

namespace BuildScript

open BuildScript.Expr (Context)

/-- The prefix operators of the term take its operand. -/
def Term.expr (term : Term) : Expr := term.prefixes.foldr .unary term.operand

/-- The operators in front of the operand stand in front of operands only. -/
def Term.Unary (term : Term) : Prop := ∀ op ∈ term.prefixes, op.isUnary = true

namespace Waiting

variable {f : Expr → Expr} {op incoming : Operator} {left operand : Expr} {stack below : List Waiting}

theorem context_apply (waiting : Waiting) (h : Context f) :
    Context fun part => waiting.apply (f part) := by
  cases waiting with
  | unary op => exact .unary op h
  | binary left op => exact .right op left h

theorem context_finish (stack : List Waiting) (h : Context f) :
    Context fun part => finish stack (f part) := by
  induction stack generalizing f with
  | nil => exact h
  | cons waiting stack ih => exact ih (waiting.context_apply h)

/-- Which operators take the operand does not depend on the operand. -/
theorem reduce_operand (incoming : Operator) (stack : List Waiting) (h : Context f) :
    ∃ rest g, Context g ∧ ∀ part, reduce incoming stack (f part) = (rest, g part) := by
  induction stack generalizing f with
  | nil => exact ⟨[], f, h, fun _ => rfl⟩
  | cons waiting stack ih =>
    by_cases hreduces : waiting.op.reducesBefore incoming = true
    · obtain ⟨rest, g, hg, heq⟩ := ih (waiting.context_apply h)
      refine ⟨rest, g, hg, fun part => ?_⟩
      rw [reduce, if_pos hreduces, heq]
    · refine ⟨waiting :: stack, f, h, fun part => ?_⟩
      rw [reduce, if_neg hreduces]

/-- The operators on top stop before one that keeps waiting, or all of them take the operand. -/
theorem reduce_append (incoming : Operator) (top : List Waiting) (operand : Expr) :
    ∃ rest taken, (∀ below, reduce incoming (top ++ below) operand = (rest ++ below, taken)) ∨
      ∀ below, reduce incoming (top ++ below) operand = reduce incoming below taken := by
  induction top generalizing operand with
  | nil => exact ⟨[], operand, .inr fun _ => rfl⟩
  | cons waiting top ih =>
    by_cases hreduces : waiting.op.reducesBefore incoming = true
    · obtain ⟨rest, taken, htop⟩ := ih (waiting.apply operand)
      refine ⟨rest, taken, htop.imp ?_ ?_⟩ <;>
      · intro h below
        rw [List.cons_append, reduce, if_pos hreduces, h below]
    · refine ⟨waiting :: top, operand, .inl fun below => ?_⟩
      rw [List.cons_append, reduce, if_neg hreduces]

end Waiting

namespace Chain

variable {f : Expr → Expr} {others : List (Operator × Term)} {stack : List Waiting}

/-- Terms that follow, each behind an operator that takes operands to both sides. -/
def Follow (others : List (Operator × Term)) : Prop :=
  ∀ other ∈ others, other.1.isBinary = true ∧ other.2.Unary

theorem reduce_prefixes {signs : List Operator} {op : Operator} (hop : op.isBinary = true)
    (hsigns : ∀ sign ∈ signs, sign.isUnary = true) (stack : List Waiting) (operand : Expr) :
    Waiting.reduce op (pushPrefixes signs stack) operand =
      Waiting.reduce op stack (signs.foldr .unary operand) := by
  induction signs generalizing stack with
  | nil => rfl
  | cons sign signs ih =>
    obtain ⟨hsign, hothers⟩ := List.forall_mem_cons.mp hsigns
    have hpush : pushPrefixes (sign :: signs) stack = pushPrefixes signs (.unary sign :: stack) := rfl
    rw [hpush, ih hothers, Waiting.reduce]
    exact if_pos (Operator.isUnary_reducesBefore hsign hop)

theorem finish_prefixes (signs : List Operator) (stack : List Waiting) (operand : Expr) :
    Waiting.finish (pushPrefixes signs stack) operand =
      Waiting.finish stack (signs.foldr .unary operand) := by
  induction signs generalizing stack with
  | nil => rfl
  | cons sign signs ih => exact ih (.unary sign :: stack)

/-- Prefix operators take their operand before anything else does. -/
theorem resolve_prefixes {term : Term} (hterm : term.Unary) (hothers : Follow others)
    (stack : List Waiting) : resolve (pushPrefixes term.prefixes stack) term.operand others =
      resolve stack term.expr others := by
  cases others with
  | nil => exact finish_prefixes term.prefixes stack term.operand
  | cons other others =>
    have hop := (hothers other List.mem_cons_self).1
    rw [resolve, resolve, reduce_prefixes hop hterm]
    rfl

theorem resolve_cons {op : Operator} {term : Term} {stack rest : List Waiting} {operand left : Expr}
    (h : Follow ((op, term) :: others)) (hreduce : Waiting.reduce op stack operand = (rest, left)) :
    resolve stack operand ((op, term) :: others) = resolve (.binary left op :: rest) term.expr others := by
  obtain ⟨⟨-, hterm⟩, hothers⟩ := List.forall_mem_cons.mp h
  rw [resolve, hreduce]
  exact resolve_prefixes hterm hothers _

/-- A part of an operator that waits, and a part of the operand that is read last, come to stand in
one place of the tree. -/
theorem resolve_context (hothers : Follow others) (hf : Context f) :
    (∀ top op below operand, ∃ g, Context g ∧
      ∀ part, resolve (top ++ .binary (f part) op :: below) operand others = g part) ∧
    ∀ stack, ∃ g, Context g ∧ ∀ part, resolve stack (f part) others = g part := by
  induction others generalizing f with
  | nil =>
    refine ⟨fun top op below operand => ?_, fun stack => ?_⟩
    · refine ⟨_, Waiting.context_finish below (.left op (Waiting.finish top operand) hf), fun part => ?_⟩
      rw [resolve, Waiting.finish, List.foldl_append]
      rfl
    · exact ⟨_, Waiting.context_finish stack hf, fun part => rfl⟩
  | cons other others ih =>
    obtain ⟨incoming, term⟩ := other
    have hrest : Follow others := (List.forall_mem_cons.mp hothers).2
    have hoperand (stack : List Waiting) {f : Expr → Expr} (hf : Context f) :
        ∃ g, Context g ∧ ∀ part, resolve stack (f part) ((incoming, term) :: others) = g part := by
      obtain ⟨rest, left, hleft, hreduce⟩ := Waiting.reduce_operand incoming stack hf
      obtain ⟨g, hg, hresolve⟩ := (ih hrest hleft).1 [] incoming rest term.expr
      exact ⟨g, hg, fun part => (resolve_cons hothers (hreduce part)).trans (hresolve part)⟩
    refine ⟨fun top op below operand => ?_, fun stack => hoperand stack hf⟩
    obtain ⟨rest, taken, hstops | hall⟩ := Waiting.reduce_append incoming top operand
    · obtain ⟨g, hg, hresolve⟩ :=
        (ih hrest hf).1 (.binary taken incoming :: rest) op below term.expr
      exact ⟨g, hg, fun part => (resolve_cons hothers (hstops _)).trans (hresolve part)⟩
    · by_cases hreduces : op.reducesBefore incoming = true
      · -- The operator takes the operand, which the part stands in from now on.
        obtain ⟨g, hg, hresolve⟩ := hoperand below (.left op taken hf)
        refine ⟨g, hg, fun part => ?_⟩
        rw [← hresolve part, resolve, resolve, hall, Waiting.reduce]
        exact congrArg (fun reduced : List Waiting × Expr => resolve (pushPrefixes term.prefixes
          (.binary reduced.2 incoming :: reduced.1)) term.operand others) (if_pos hreduces)
      · obtain ⟨g, hg, hresolve⟩ := (ih hrest hf).1 [.binary taken incoming] op below term.expr
        refine ⟨g, hg, fun part => ?_⟩
        have hreduce : Waiting.reduce incoming (top ++ .binary (f part) op :: below) operand =
            (.binary (f part) op :: below, taken) := by
          rw [hall, Waiting.reduce]
          exact if_neg hreduces
        exact (resolve_cons hothers hreduce).trans (hresolve part)

/-- A sequence of terms is a context of each of its terms. `T` is a term that changes with its part. -/
theorem resolve_term {T : Term → Term} (hf : Context f)
    (hT : ∀ part, part.Unary → (T part).Unary ∧ (T part).expr = f part.expr)
    {before after : List (Operator × Term)} {op : Operator} (hop : op.isBinary = true)
    (hbefore : Follow before) (hafter : Follow after) (stack : List Waiting) (operand : Expr) :
    ∃ g, Context g ∧ ∀ part, part.Unary →
      resolve stack operand (before ++ (op, T part) :: after) = g part.expr := by
  have hfollow (part : Term) (hpart : part.Unary) {before : List (Operator × Term)}
      (hbefore : Follow before) : Follow (before ++ (op, T part) :: after) := by
    refine List.forall_mem_append.mpr ⟨hbefore, List.forall_mem_cons.mpr ⟨⟨hop, ?_⟩, hafter⟩⟩
    exact (hT part hpart).1
  induction before generalizing stack operand with
  | nil =>
    cases hreduce : Waiting.reduce op stack operand with
    | mk rest left =>
      obtain ⟨g, hg, hresolve⟩ := (resolve_context hafter hf).2 (.binary left op :: rest)
      refine ⟨g, hg, fun part hpart => ?_⟩
      rw [List.nil_append, resolve_cons (hfollow part hpart hbefore) hreduce, (hT part hpart).2,
        hresolve]
  | cons other before ih =>
    obtain ⟨first, term⟩ := other
    cases hreduce : Waiting.reduce first stack operand with
    | mk rest left =>
      obtain ⟨g, hg, hresolve⟩ :=
        ih (List.forall_mem_cons.mp hbefore).2 (.binary left first :: rest) term.expr
      refine ⟨g, hg, fun part hpart => ?_⟩
      exact (resolve_cons (hfollow part hpart hbefore) hreduce).trans (hresolve part hpart)

theorem toExpr_eq {first : Term} (hfirst : first.Unary) (hothers : Follow others) :
    (Chain.mk first others).toExpr = resolve [] first.expr others :=
  resolve_prefixes hfirst hothers []

theorem toExpr_first {T : Term → Term} (hf : Context f)
    (hT : ∀ part, part.Unary → (T part).Unary ∧ (T part).expr = f part.expr)
    (hothers : Follow others) :
    ∃ g, Context g ∧ ∀ part, part.Unary → (Chain.mk (T part) others).toExpr = g part.expr := by
  obtain ⟨g, hg, hresolve⟩ := (resolve_context hothers hf).2 []
  refine ⟨g, hg, fun part hpart => ?_⟩
  rw [toExpr_eq (hT part hpart).1 hothers, (hT part hpart).2, hresolve]

theorem toExpr_other {T : Term → Term} (hf : Context f)
    (hT : ∀ part, part.Unary → (T part).Unary ∧ (T part).expr = f part.expr) {first : Term}
    (hfirst : first.Unary) {before after : List (Operator × Term)} {op : Operator}
    (hop : op.isBinary = true) (hbefore : Follow before) (hafter : Follow after) :
    ∃ g, Context g ∧ ∀ part, part.Unary →
      (Chain.mk first (before ++ (op, T part) :: after)).toExpr = g part.expr := by
  obtain ⟨g, hg, hresolve⟩ := resolve_term hf hT hop hbefore hafter [] first.expr
  refine ⟨g, hg, fun part hpart => ?_⟩
  have hfollow : Follow (before ++ (op, T part) :: after) :=
    List.forall_mem_append.mpr ⟨hbefore, List.forall_mem_cons.mpr ⟨⟨hop, (hT part hpart).1⟩, hafter⟩⟩
  rw [toExpr_eq hfirst hfollow, hresolve part hpart]

end Chain

end BuildScript
