import BuildScript.Eval.Expr
import BuildScript.Proofs.Source.Operands
import BuildScript.Proofs.Token.Integers

/-!
Integers where operands are expected. Every integer can be written there, and its text is read as the
integer. What the lexer guesses from the token in front of a minus is what the parser finds out, but for
two places: behind the condition of an `if` the lexer takes the minus for a subtraction, and it never
sees the tokens of the physical lines before.
-/

namespace BuildScript

open BuildScript.Expr (Minuses signedTerm)
open Clause (EndsCondition)
open Lexed (behind integer ofRest)

/-- The expression of an integer, with what follows its digits put around them. -/
def Expr.integer (wrap : Expr → Expr) (n : Int32) : Expr :=
  if 0 ≤ n.toInt ∨ n = Int32.minValue then wrap (.literal (.int n))
  else .unary .negate (wrap (.literal (.int (-n))))

variable {earlier done before after : List Token} {front back : String} {spaced : Bool} {expr : Expr}

/-- The tokens of an integer are a literal with a minus sign or none, and its expression is that of these
tokens. -/
theorem exists_signs (spaced : Bool) (n : Int32) : ∃ signs literal value,
    integer spaced n = signs ++ [literal] ∧ Minuses signs ∧ literal.kind = .literal value ∧
      ∀ wrap : Expr → Expr, (signedTerm signs (wrap (.literal value))).expr = Expr.integer wrap n := by
  unfold integer Expr.integer
  split
  · exact ⟨[], _, _, rfl, List.forall_mem_nil _, rfl, fun _ => rfl⟩
  · exact ⟨[_], _, _, rfl, List.forall_mem_singleton.mpr rfl, rfl, fun _ => rfl⟩

theorem neg?_neg {n : Int32} (hmin : n ≠ Int32.minValue) : Integer.neg? (-n) = some n := by
  have hlow := n.le_toInt
  have hhigh := n.toInt_lt
  have hne : n.toInt ≠ -2147483648 := fun h => hmin (Int32.toInt_inj.mp h)
  have hneg : (-n).toInt = -n.toInt := by
    rw [Int32.toInt_neg, Int.bmod_eq_of_le (by omega) (by omega)]
  rw [Integer.neg?, hneg, Int.neg_neg, Integer.ofInt?, if_pos (by omega), Int32.ofInt_toInt]

/-- Where nothing else is put around its digits, the expression of an integer has it as its value. -/
theorem evalValue_integer (n : Int32) : Eval.evalValue (Expr.integer id n) = pure (.int n) := by
  unfold Expr.integer
  split
  · rfl
  · rename_i hn
    have hvalue : Operation.unary .negate (.int (-n)) = .ok (.int n) := by
      rw [Operation.unary, neg?_neg (not_or.mp hn).2]
      rfl
    funext ctx m
    have heval : Eval.evalValue (.unary .negate (id (.literal (.int (-n))))) ctx m =
        Eval.valueBy (do
          return .ofValue (← Eval.ofExcept (Operation.unary .negate (.int (-n))))) ctx m := rfl
    rw [heval, hvalue]
    rfl

/-- Where an operand is expected every integer is read in the same way. -/
theorem Expects.reads_integer (h : Expects before) {m : Int32}
    (hread : ReadsAt (before ++ (integer spaced m ++ after)) before.length expr) :
    ∃ f wrap, Expr.Context f ∧ Expr.Context wrap ∧
      ((∀ token ∈ after.head?, Expr.EndsOperand token) → wrap = id) ∧
      ∀ n, ReadsAt (before ++ (integer spaced n ++ after)) before.length (f (Expr.integer wrap n)) := by
  obtain ⟨signs, literal, value, htokens, hsigns, hliteral, -⟩ := exists_signs spaced m
  rw [htokens] at hread
  obtain ⟨f, wrap, hf, hwrap, hend, hreads⟩ := h.reads hsigns hliteral hread
  refine ⟨f, wrap, hf, hwrap, hend, fun n => ?_⟩
  obtain ⟨signs', literal', value', htokens', hsigns', hliteral', hexpr⟩ := exists_signs spaced n
  rw [htokens', ← hexpr]
  exact hreads signs' literal' value' hsigns' hliteral'

/-- A line may begin with an operand. -/
theorem expects_nil : Expects [] :=
  ⟨⟨.literal (.int 0), "0", false⟩, [], .literal (.int 0), rfl, readsAt_statement rfl Nat.one_pos rfl⟩

/-- Whether a minus behind these tokens of a physical line is taken for a sign: the line begins there,
or the parser expects an operand and no condition ends there. `earlier` are the tokens of the logical
line on the physical lines before. -/
def TakesSign (earlier before : List Token) : Prop :=
  before = [] ∨ Expects (earlier ++ before) ∧ ¬EndsCondition (earlier ++ before)

theorem getLast?_behind (hne : before ≠ []) : (earlier ++ before).getLast? = before.getLast? :=
  List.getLast?_append_of_ne_nil _ hne

/-- The lexer and the parser agree on a minus, but for a minus behind a condition and for one that begins
a physical line. -/
theorem signAfter_iff_takesSign {minus : Token} (h : Expects (earlier ++ (before ++ [minus])))
    (hminus : minus.kind = .operator .subtract) :
    Lexed.signAfter before.getLast? = true ↔ TakesSign earlier before := by
  unfold TakesSign
  by_cases hbefore : before = []
  · subst hbefore
    exact iff_of_true rfl (.inl rfl)
  · rw [← getLast?_behind hbefore]
    rw [← List.append_assoc] at h
    rw [h.signAfter_iff hminus, or_iff_right hbefore]

/-- On the first physical line the two agree everywhere but behind a condition. -/
theorem takesSign_first (hcondition : ¬EndsCondition before) : TakesSign [] before ↔ Expects before := by
  unfold TakesSign
  rw [List.nil_append, and_iff_left hcondition]
  refine or_iff_right_of_imp ?_
  rintro rfl
  exact expects_nil

/-- Every integer can be written where an operand is expected. Its text is lexed as that of any other
integer, and all integers are read in the same way, with the integer as value. The magnitude of the lowest
joins a minus in front of it where this is taken for a sign, and is out of range else. The one integer that
cannot be written is the lowest right behind a condition of the same physical line. -/
theorem integers_at_operands (hplace : Lexed.Place front back done spaced)
    (hexpects : Expects (earlier ++ done)) :
    (∀ n : Int32, (n = Int32.minValue → done = [] ∨ ¬EndsCondition (earlier ++ done)) →
      Lexed.ofLine (front ++ toString n ++ back) =
        (ofRest back).map (behind (done ++ integer spaced n))) ∧
    (∀ after m expr,
      ReadsAt (earlier ++ done ++ (integer spaced m ++ after)) (earlier ++ done).length expr →
        ∃ f wrap, Expr.Context f ∧ Expr.Context wrap ∧
          ((∀ token ∈ after.head?, Expr.EndsOperand token) → wrap = id) ∧
          ∀ n, ReadsAt (earlier ++ done ++ (integer spaced n ++ after)) (earlier ++ done).length
            (f (Expr.integer wrap n))) ∧
    (∀ n, Eval.evalValue (Expr.integer id n) = pure (.int n)) ∧
    (∀ before minus, done = before ++ [minus] → minus.kind = .operator .subtract →
      TakesSign earlier before → Lexed.ofLine (front ++ "2147483648" ++ back) =
        (ofRest back).map (behind (before ++ integer minus.spaced Int32.minValue))) ∧
    ∀ lexemes, Lexeme.scan false back.toList = .ok lexemes →
      ((∀ before minus, done = before ++ [minus] → minus.kind = .operator .subtract →
          ¬TakesSign earlier before) →
        Lexed.ofLine (front ++ "2147483648" ++ back) = .error (.integerOutOfRange "2147483648")) ∧
      (done ≠ [] → EndsCondition (earlier ++ done) →
        Lexed.ofLine (front ++ toString Int32.minValue ++ back) =
          .error (.integerOutOfRange "2147483648")) := by
  refine ⟨fun n hmin => hplace.ofLine_integer fun hn => ?_,
    fun after m expr hread => hexpects.reads_integer hread, evalValue_integer,
    fun before minus hdone hminus hsign => ?_,
    fun lexemes hback => ⟨fun hnone => ?_, fun hne hcondition => ?_⟩⟩
  · by_cases hdone : done = []
    · rw [hdone]
      rfl
    · rw [← getLast?_behind hdone]
      exact hexpects.signAfter_or.resolve_right ((hmin hn).resolve_left hdone)
  · subst hdone
    exact hplace.ofLine_largest rfl hminus ((signAfter_iff_takesSign hexpects hminus).mpr hsign)
  · refine hplace.ofLine_outOfRange (fun before minus hdone hminus => ?_) hback
    subst hdone
    refine eq_false_of_ne_true fun hsign => hnone _ _ rfl hminus ?_
    exact (signAfter_iff_takesSign hexpects hminus).mp hsign
  · refine hplace.ofLine_minValue ?_ hback
    rw [← getLast?_behind hne]
    exact hcondition.not_signAfter

/-- What an assignment of a negative integer begins with. -/
def assignedMinus : List Token :=
  [⟨.identifier "x", "x", true⟩, ⟨.operator .assign, "=", true⟩, ⟨.operator .subtract, "-", true⟩]

theorem lowest_assigned : Lexed.Place "x = -" "" assignedMinus false ∧ Expects ([] ++ assignedMinus) ∧
    TakesSign [] (assignedMinus.take 2) ∧ Lexed.ofLine ("x = -" ++ "2147483648" ++ "") =
      .ok ⟨assignedMinus.take 2 ++ [⟨.literal (.int Int32.minValue), "-2147483648", true⟩], false⟩ := by
  let zero : Token := ⟨.literal (.int 0), "0", false⟩
  have hplace : Lexed.Place "x = -" "" assignedMinus false := by
    have htext : "x = -".toList = ['x', ' ', '=', ' ', '-'] := by simp
    have hpasses : Lexeme.Passes true ['x', ' ', '=', ' ', '-', '0'] _ false ['0'] :=
      .lexeme rfl rfl rfl (.gap rfl (.lexeme rfl rfl rfl (.gap rfl (.lexeme rfl rfl rfl .here))))
    refine ⟨⟨_, ?_, by rw [htext]; exact hpasses⟩, nofun⟩
    rfl
  have hexpects : Expects ([] ++ assignedMinus) :=
    ⟨zero, [], _, rfl, readsAt_statement rfl (by decide) rfl⟩
  have hsign : TakesSign [] (assignedMinus.take 2) :=
    (signAfter_iff_takesSign hexpects rfl).mp rfl
  obtain ⟨-, -, -, hfolds, -⟩ := integers_at_operands hplace hexpects
  refine ⟨hplace, hexpects, hsign, (hfolds _ _ rfl rfl hsign).trans ?_⟩
  cbv

/-- Right behind a condition every other integer can be written, and the parser expects an operand there;
the lowest cannot. -/
theorem lowest_behind_condition : ∃ done, Lexed.Place "if (true) " "" done true ∧ Expects done ∧
    Lexed.ofLine "if (true) -2147483647" = .ok ⟨done ++ integer true (-2147483647), false⟩ ∧
      Lexed.ofLine "if (true) -2147483648" = .error (.integerOutOfRange "2147483648") := by
  let done : List Token := [⟨.keyword .ifWord, "if", true⟩, ⟨.separator .parenOpen, "(", true⟩,
    ⟨.literal (.bool true), "true", false⟩, ⟨.separator .parenClose, ")", false⟩]
  let zero : Token := ⟨.literal (.int 0), "0", true⟩
  have htext : "if (true) ".toList = ['i', 'f', ' ', '(', 't', 'r', 'u', 'e', ')', ' '] := by simp
  have hpasses : Lexeme.Passes true ['i', 'f', ' ', '(', 't', 'r', 'u', 'e', ')', ' ', '0'] _ true ['0'] :=
    .lexeme rfl rfl rfl (.gap rfl (.lexeme rfl rfl rfl (.lexeme rfl rfl rfl
      (.lexeme rfl rfl rfl (.gap rfl .here)))))
  have hread : (Clause.statement [zero]).expression? = some (.literal (.int 0)) := rfl
  refine ⟨done, ⟨⟨_, ?_, by rw [htext]; exact hpasses⟩, nofun⟩, ⟨zero, [], _, rfl, 4, _, ?_,
    Nat.le_refl _, Nat.lt_succ_self _, hread⟩, ?_, ?_⟩
  · rfl
  · have hcondition : Clause.read? done[0] (done.tail ++ [zero]) =
        some (.condition [⟨.literal (.bool true), "true", false⟩], 3) := rfl
    have hstatement : Clause.read? zero [] = some (.statement [zero], 0) := rfl
    have hsplit : Clause.split (done ++ [zero]) = _ := Clause.splitFrom_some hcondition 0
    have hbehind : Clause.splitFrom 4 [zero] = _ := Clause.splitFrom_some hstatement 4
    rw [hsplit]
    refine List.mem_cons_of_mem _ ?_
    exact hbehind ▸ List.mem_cons_self
  · cbv
  · cbv

end BuildScript
