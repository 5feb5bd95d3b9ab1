import BuildScript.Expr.Statement

/-!
Reading expressions without a bound. Every step of the grammar takes one unit of fuel, and between
two steps that read the same form a token is taken off. So what is read depends on the tokens alone
once there are five units for each of them and a few more, and the readers obey the grammar as it
stands.
-/

namespace BuildScript.Expr

variable {α β : Type}

/-- Two readings are the same and leave fewer tokens than the bound. -/
structure Agree (bound : Nat) (r r' : Except SyntaxError (α × List Token)) : Prop where
  same : r = r'
  left : ∀ a rest, r = .ok (a, rest) → rest.length < bound

namespace Agree

variable {bound bound' : Nat}

theorem ok {a : α} {rest : List Token} (h : rest.length < bound) :
    Agree bound (.ok (a, rest)) (.ok (a, rest)) := by
  refine ⟨rfl, fun b other hok => ?_⟩
  cases hok
  exact h

theorem error (e : SyntaxError) : Agree bound (.error e : Except SyntaxError (α × List Token))
    (.error e) := ⟨rfl, nofun⟩

theorem bind {x x' : Except SyntaxError (α × List Token)}
    {f f' : α × List Token → Except SyntaxError (β × List Token)} (hx : Agree bound x x')
    (hf : ∀ a rest, rest.length < bound → Agree bound' (f (a, rest)) (f' (a, rest))) :
    Agree bound' (x >>= f) (x' >>= f') := by
  obtain ⟨rfl, hleft⟩ := hx
  cases x with
  | error e => exact error e
  | ok read => exact hf read.1 read.2 (hleft _ _ rfl)

theorem bind_eq {x x' : Except SyntaxError (α × List Token)}
    {f f' : α × List Token → Except SyntaxError β} (hx : Agree bound x x')
    (hf : ∀ a rest, rest.length < bound → f (a, rest) = f' (a, rest)) :
    (x >>= f) = (x' >>= f') := by
  obtain ⟨rfl, hleft⟩ := hx
  cases x with
  | error e => rfl
  | ok read => exact hf read.1 read.2 (hleft _ _ rfl)

theorem mono {r r' : Except SyntaxError (α × List Token)} (h : Agree bound r r')
    (hle : bound ≤ bound') : Agree bound' r r' :=
  ⟨h.same, fun a rest hok => Nat.lt_of_lt_of_le (h.left a rest hok) hle⟩

end Agree

theorem length_readPrefixes_le (tokens : List Token) :
    (readPrefixes tokens).2.length ≤ tokens.length := by
  fun_induction readPrefixes tokens with
  | case1 text spaced rest others rest' heq ih | case2 text spaced rest others rest' heq ih
  | case3 text spaced rest others rest' heq ih =>
    rw [heq] at ih
    exact Nat.le_succ_of_le ih
  | case4 tokens => exact Nat.le_refl _

theorem length_typeSuffix_le (base : DataType) (tokens : List Token) :
    (Reader.typeSuffix base tokens).2.length ≤ tokens.length := by
  fun_induction Reader.typeSuffix base tokens with
  | case1 base text spaced text' spaced' rest ih => exact Nat.le_succ_of_le (Nat.le_succ_of_le ih)
  | case2 base tokens => exact Nat.le_refl _

theorem readBinary?_eq_some {tokens rest : List Token} {op : Operator}
    (h : readBinary? tokens = some (op, rest)) :
    ∃ token, tokens = token :: rest ∧ token.kind = .operator op ∧ op.isBinary = true := by
  unfold readBinary? at h
  split at h
  · rename_i found text spaced rest'
    split at h
    · rename_i hbinary
      cases h
      exact ⟨_, rfl, rfl, hbinary⟩
    · cases h
  · cases h

theorem agree_readName (name : String) (tokens : List Token) :
    Agree (tokens.length + 1) (readName name tokens) (readName name tokens) := by
  have hlength := length_typeSuffix_le (Reader.typeOfName name) tokens
  unfold readName
  split
  · rename_i type declared text spaced rest heq
    rw [heq] at hlength
    simp only [List.length_cons] at hlength
    exact .ok (by omega)
  · exact .error _
  · exact .ok (Nat.lt_succ_self _)

theorem agree_identifier (tokens : List Token) :
    Agree tokens.length (Reader.identifier tokens) (Reader.identifier tokens) := by
  unfold Reader.identifier
  split
  · exact .error _
  · exact .ok (Nat.lt_succ_self _)
  · exact .error _

theorem length_closing_lt {separator : Separator} {tokens rest : List Token}
    (h : Reader.closing separator tokens = .ok rest) : rest.length < tokens.length := by
  unfold Reader.closing at h
  split at h
  · split at h
    · cases h
      exact Nat.lt_succ_self _
    · cases h
  · cases h

/-- A closing separator and what is read after it. -/
theorem agree_closing {separator : Separator} {tokens : List Token} {bound : Nat}
    {f f' : List Token → Except SyntaxError (α × List Token)}
    (hf : ∀ rest : List Token, rest.length < tokens.length → Agree bound (f rest) (f' rest)) :
    Agree bound (Reader.closing separator tokens >>= f) (Reader.closing separator tokens >>= f') := by
  cases hclosing : Reader.closing separator tokens with
  | error e => exact .error e
  | ok rest => exact hf rest (length_closing_lt hclosing)

/-- With fuel `n`, and with any other that is enough, every form is read alike. -/
structure Settled (n : Nat) : Prop where
  expression : ∀ k (tokens : List Token), 5 * tokens.length + 4 ≤ n → 5 * tokens.length + 4 ≤ k →
    Agree tokens.length (readExpression n tokens) (readExpression k tokens)
  term : ∀ k (tokens : List Token), 5 * tokens.length + 3 ≤ n → 5 * tokens.length + 3 ≤ k →
    Agree tokens.length (readTerm n tokens) (readTerm k tokens)
  others : ∀ k (tokens : List Token), 5 * tokens.length + 1 ≤ n → 5 * tokens.length + 1 ≤ k →
    Agree (tokens.length + 1) (readOthers n tokens) (readOthers k tokens)
  operand : ∀ k (tokens : List Token), 5 * tokens.length + 2 ≤ n → 5 * tokens.length + 2 ≤ k →
    Agree tokens.length (readOperand n tokens) (readOperand k tokens)
  suffixes : ∀ k operand (tokens : List Token), 5 * tokens.length + 2 ≤ n →
    5 * tokens.length + 2 ≤ k →
    Agree (tokens.length + 1) (readSuffixes n operand tokens) (readSuffixes k operand tokens)
  primary : ∀ k (tokens : List Token), 5 * tokens.length + 1 ≤ n → 5 * tokens.length + 1 ≤ k →
    Agree tokens.length (readPrimary n tokens) (readPrimary k tokens)
  elements : ∀ k (tokens : List Token), 5 * tokens.length + 5 ≤ n → 5 * tokens.length + 5 ≤ k →
    Agree tokens.length (readElements n tokens) (readElements k tokens)
  arguments : ∀ k (tokens : List Token), 5 * tokens.length + 6 ≤ n → 5 * tokens.length + 6 ≤ k →
    Agree tokens.length (readArguments n tokens) (readArguments k tokens)
  argumentsFrom : ∀ k position (tokens : List Token), 5 * tokens.length + 5 ≤ n →
    5 * tokens.length + 5 ≤ k →
    Agree tokens.length (readArgumentsFrom n position tokens) (readArgumentsFrom k position tokens)

namespace Settled

variable {n : Nat}

theorem stepExpression (ih : Settled n) (k : Nat) (tokens : List Token)
    (hn : 5 * tokens.length + 3 ≤ n) (hk : 5 * tokens.length + 3 ≤ k) :
    Agree tokens.length (readExpression (n + 1) tokens) (readExpression (k + 1) tokens) := by
  rw [readExpression, readExpression]
  refine (ih.term k tokens hn hk).bind fun first rest hrest => ?_
  refine (ih.others k rest (by omega) (by omega)).bind fun others rest' hrest' => ?_
  exact .ok (by omega)

theorem stepTerm (ih : Settled n) (k : Nat) (tokens : List Token)
    (hn : 5 * tokens.length + 2 ≤ n) (hk : 5 * tokens.length + 2 ≤ k) :
    Agree tokens.length (readTerm (n + 1) tokens) (readTerm (k + 1) tokens) := by
  have hlength := length_readPrefixes_le tokens
  rw [readTerm, readTerm]
  refine (ih.operand k (readPrefixes tokens).2 (by omega) (by omega)).bind fun operand rest hrest => ?_
  exact .ok (by omega)

theorem stepOthers (ih : Settled n) (k : Nat) (tokens : List Token)
    (hn : 5 * tokens.length ≤ n) (hk : 5 * tokens.length ≤ k) :
    Agree (tokens.length + 1) (readOthers (n + 1) tokens) (readOthers (k + 1) tokens) := by
  rw [readOthers, readOthers]
  cases hbinary : readBinary? tokens with
  | none => exact .ok (Nat.lt_succ_self _)
  | some read =>
    obtain ⟨op, rest⟩ := read
    obtain ⟨token, rfl, -, -⟩ := readBinary?_eq_some hbinary
    simp only [List.length_cons] at hn hk ⊢
    refine (ih.term k rest (by omega) (by omega)).bind fun term rest' hrest' => ?_
    refine (ih.others k rest' (by omega) (by omega)).bind fun others rest'' hrest'' => ?_
    dsimp only
    exact .ok (by omega)

theorem stepOperand (ih : Settled n) (k : Nat) (tokens : List Token)
    (hn : 5 * tokens.length + 1 ≤ n) (hk : 5 * tokens.length + 1 ≤ k) :
    Agree tokens.length (readOperand (n + 1) tokens) (readOperand (k + 1) tokens) := by
  rw [readOperand, readOperand]
  refine (ih.primary k tokens hn hk).bind fun primary rest hrest => ?_
  exact (ih.suffixes k primary rest (by omega) (by omega)).mono hrest

theorem stepSuffixes (ih : Settled n) (k : Nat) (operand : Expr) (tokens : List Token)
    (hn : 5 * tokens.length + 1 ≤ n) (hk : 5 * tokens.length + 1 ≤ k) :
    Agree (tokens.length + 1) (readSuffixes (n + 1) operand tokens)
      (readSuffixes (k + 1) operand tokens) := by
  have hplain : Agree (tokens.length + 1) (.ok (operand, tokens)) (.ok (operand, tokens)) :=
    .ok (Nat.lt_succ_self _)
  rcases tokens with _ | ⟨⟨kind, text, spaced⟩, rest⟩
  · exact hplain
  · simp only [List.length_cons] at hn hk ⊢
    cases kind with
    | separator separator =>
      cases separator with
      | parenOpen =>
        rw [readSuffixes, readSuffixes]
        refine (ih.arguments k rest (by omega) (by omega)).bind fun arguments rest' hrest => ?_
        exact (ih.suffixes k _ rest' (by omega) (by omega)).mono (by omega)
      | bracketOpen =>
        rw [readSuffixes, readSuffixes]
        refine (ih.expression k rest (by omega) (by omega)).bind fun index rest' hrest => ?_
        refine agree_closing fun rest'' hrest' => ?_
        exact (ih.suffixes k _ rest'' (by omega) (by omega)).mono (by omega)
      | _ => exact hplain
    | operator op =>
      cases op with
      | member =>
        rw [readSuffixes, readSuffixes]
        refine (agree_identifier rest).bind fun name rest' hrest => ?_
        exact (ih.suffixes k _ rest' (by omega) (by omega)).mono (by omega)
      | _ => exact hplain
    | _ => exact hplain

theorem stepPrimary (ih : Settled n) (k : Nat) (tokens : List Token)
    (hn : 5 * tokens.length ≤ n) (hk : 5 * tokens.length ≤ k) :
    Agree tokens.length (readPrimary (n + 1) tokens) (readPrimary (k + 1) tokens) := by
  rcases tokens with _ | ⟨⟨kind, text, spaced⟩, rest⟩
  · exact .error _
  · simp only [List.length_cons] at hn hk ⊢
    cases kind with
    | literal value => exact .ok (Nat.lt_succ_self _)
    | ownMember name => exact .ok (Nat.lt_succ_self _)
    | identifier name =>
      unfold readPrimary
      dsimp only
      split
      · rename_i type text' spaced' rest' _
        simp only [List.length_cons] at hn hk ⊢
        refine (ih.arguments k rest' (by omega) (by omega)).bind fun arguments rest'' hrest => ?_
        dsimp only
        exact .ok (by omega)
      · exact (agree_readName name _).mono (Nat.le_refl _)
    | separator separator =>
      cases separator with
      | parenOpen =>
        unfold readPrimary
        dsimp only
        refine (ih.expression k rest (by omega) (by omega)).bind fun inner rest' hrest => ?_
        dsimp only
        refine agree_closing fun rest'' hrest' => ?_
        exact .ok (by omega)
      | bracketOpen =>
        unfold readPrimary
        dsimp only
        split
        · simp only [List.length_cons]
          exact .ok (by omega)
        · refine (ih.elements k rest (by omega) (by omega)).bind fun elements rest' hrest => ?_
          dsimp only
          exact .ok (by omega)
      | _ => exact .error _
    | _ => exact .error _

theorem stepElements (ih : Settled n) (k : Nat) (tokens : List Token)
    (hn : 5 * tokens.length + 4 ≤ n) (hk : 5 * tokens.length + 4 ≤ k) :
    Agree tokens.length (readElements (n + 1) tokens) (readElements (k + 1) tokens) := by
  unfold readElements
  refine (ih.expression k tokens hn hk).bind fun element rest hrest => ?_
  dsimp only
  split
  · exact .error _
  · simp only [List.length_cons] at hrest
    exact .ok (by omega)
  · rename_i text spaced rest'
    simp only [List.length_cons] at hrest
    refine (ih.elements k rest' (by omega) (by omega)).bind fun elements rest'' hrest' => ?_
    dsimp only
    exact .ok (by omega)
  · exact .error _

theorem stepArguments (ih : Settled n) (k : Nat) (tokens : List Token)
    (hn : 5 * tokens.length + 5 ≤ n) (hk : 5 * tokens.length + 5 ≤ k) :
    Agree tokens.length (readArguments (n + 1) tokens) (readArguments (k + 1) tokens) := by
  have hfrom := ih.argumentsFrom k 1 tokens hn hk
  rcases tokens with _ | ⟨⟨kind, text, spaced⟩, rest⟩
  · exact hfrom
  · cases kind with
    | separator separator =>
      cases separator with
      | parenClose => exact .ok (Nat.lt_succ_self _)
      | _ => exact hfrom
    | _ => exact hfrom

theorem stepArgumentsFrom (ih : Settled n) (k position : Nat) (tokens : List Token)
    (hn : 5 * tokens.length + 4 ≤ n) (hk : 5 * tokens.length + 4 ≤ k) :
    Agree tokens.length (readArgumentsFrom (n + 1) position tokens)
      (readArgumentsFrom (k + 1) position tokens) := by
  obtain ⟨hsame, hleft⟩ := ih.expression k tokens hn hk
  unfold readArgumentsFrom
  rw [← hsame]
  cases hread : readExpression n tokens with
  | error e => exact .error _
  | ok read =>
    obtain ⟨argument, rest⟩ := read
    have hrest := hleft argument rest hread
    dsimp only
    split
    · exact .error _
    · exact .error _
    · rename_i hok
      cases hok
      simp only [List.length_cons] at hrest
      exact .ok (by omega)
    · rename_i text spaced rest' hok
      cases hok
      simp only [List.length_cons] at hrest
      refine (ih.argumentsFrom k (position + 1) rest' (by omega) (by omega)).bind ?_
      intro arguments rest'' hrest'
      dsimp only
      exact .ok (by omega)
    · exact .error _

/-- The bound that is enough shrinks with the tokens that are left. -/
theorem all (n : Nat) : Settled n := by
  induction n with
  | zero => constructor <;> intros <;> omega
  | succ n ih =>
    -- No bound is zero, so the other fuel is a successor too, and each form takes its step.
    constructor <;> intro k <;> cases k <;> intros
    all_goals first | omega | skip
    · exact ih.stepExpression _ _ (by omega) (by omega)
    · exact ih.stepTerm _ _ (by omega) (by omega)
    · exact ih.stepOthers _ _ (by omega) (by omega)
    · exact ih.stepOperand _ _ (by omega) (by omega)
    · exact ih.stepSuffixes _ _ _ (by omega) (by omega)
    · exact ih.stepPrimary _ _ (by omega) (by omega)
    · exact ih.stepElements _ _ (by omega) (by omega)
    · exact ih.stepArguments _ _ (by omega) (by omega)
    · exact ih.stepArgumentsFrom _ _ _ (by omega) (by omega)

end Settled

/-- Fuel that no form over so many tokens exhausts. -/
def ample (tokens : List Token) : Nat := 5 * tokens.length + 6

def expressionOf (tokens : List Token) : Except SyntaxError (Expr × List Token) :=
  readExpression (ample tokens) tokens

def termOf (tokens : List Token) : Except SyntaxError (Term × List Token) :=
  readTerm (ample tokens) tokens

def othersOf (tokens : List Token) : Except SyntaxError (List (Operator × Term) × List Token) :=
  readOthers (ample tokens) tokens

def operandOf (tokens : List Token) : Except SyntaxError (Expr × List Token) :=
  readOperand (ample tokens) tokens

def suffixesOf (operand : Expr) (tokens : List Token) : Except SyntaxError (Expr × List Token) :=
  readSuffixes (ample tokens) operand tokens

def primaryOf (tokens : List Token) : Except SyntaxError (Expr × List Token) :=
  readPrimary (ample tokens) tokens

def elementsOf (tokens : List Token) : Except SyntaxError (List Expr × List Token) :=
  readElements (ample tokens) tokens

def argumentsOf (tokens : List Token) : Except SyntaxError (List Expr × List Token) :=
  readArguments (ample tokens) tokens

def argumentsFromOf (position : Nat) (tokens : List Token) :
    Except SyntaxError (List Expr × List Token) :=
  readArgumentsFrom (ample tokens) position tokens

section

variable {n : Nat} {tokens : List Token}

theorem agree_expression (h : 5 * tokens.length + 4 ≤ n) :
    Agree tokens.length (readExpression n tokens) (expressionOf tokens) :=
  (Settled.all n).expression _ tokens h (by unfold ample; omega)

theorem agree_term (h : 5 * tokens.length + 3 ≤ n) :
    Agree tokens.length (readTerm n tokens) (termOf tokens) :=
  (Settled.all n).term _ tokens h (by unfold ample; omega)

theorem agree_others (h : 5 * tokens.length + 1 ≤ n) :
    Agree (tokens.length + 1) (readOthers n tokens) (othersOf tokens) :=
  (Settled.all n).others _ tokens h (by unfold ample; omega)

theorem agree_operand (h : 5 * tokens.length + 2 ≤ n) :
    Agree tokens.length (readOperand n tokens) (operandOf tokens) :=
  (Settled.all n).operand _ tokens h (by unfold ample; omega)

theorem agree_suffixes {operand : Expr} (h : 5 * tokens.length + 2 ≤ n) :
    Agree (tokens.length + 1) (readSuffixes n operand tokens) (suffixesOf operand tokens) :=
  (Settled.all n).suffixes _ operand tokens h (by unfold ample; omega)

theorem agree_primary (h : 5 * tokens.length + 1 ≤ n) :
    Agree tokens.length (readPrimary n tokens) (primaryOf tokens) :=
  (Settled.all n).primary _ tokens h (by unfold ample; omega)

theorem agree_elements (h : 5 * tokens.length + 5 ≤ n) :
    Agree tokens.length (readElements n tokens) (elementsOf tokens) :=
  (Settled.all n).elements _ tokens h (by unfold ample; omega)

theorem agree_arguments (h : 5 * tokens.length + 6 ≤ n) :
    Agree tokens.length (readArguments n tokens) (argumentsOf tokens) :=
  (Settled.all n).arguments _ tokens h (by unfold ample; omega)

theorem agree_argumentsFrom {position : Nat} (h : 5 * tokens.length + 5 ≤ n) :
    Agree tokens.length (readArgumentsFrom n position tokens) (argumentsFromOf position tokens) :=
  (Settled.all n).argumentsFrom _ position tokens h (by unfold ample; omega)

end

theorem expressionOf_eq (tokens : List Token) : expressionOf tokens = do
    let (first, rest) ← termOf tokens
    let (others, rest) ← othersOf rest
    return ((Chain.mk first others).toExpr, rest) := by
  unfold expressionOf ample
  rw [readExpression]
  refine (agree_term (by omega)).bind_eq fun first rest hrest => ?_
  exact (agree_others (by omega)).bind_eq fun others rest' hrest' => rfl

theorem termOf_eq (tokens : List Token) : termOf tokens = do
    let (operand, rest) ← operandOf (readPrefixes tokens).2
    return (⟨(readPrefixes tokens).1, operand⟩, rest) := by
  have hlength := length_readPrefixes_le tokens
  unfold termOf ample
  rw [readTerm]
  exact (agree_operand (by omega)).bind_eq fun operand rest hrest => rfl

theorem othersOf_eq (tokens : List Token) : othersOf tokens =
    match readBinary? tokens with
    | none => .ok ([], tokens)
    | some (op, rest) => do
      let (term, rest) ← termOf rest
      let (others, rest) ← othersOf rest
      return ((op, term) :: others, rest) := by
  unfold othersOf ample
  rw [readOthers]
  cases hbinary : readBinary? tokens with
  | none => rfl
  | some read =>
    obtain ⟨op, rest⟩ := read
    obtain ⟨token, rfl, -, -⟩ := readBinary?_eq_some hbinary
    simp only [List.length_cons]
    refine (agree_term (by omega)).bind_eq fun term rest' hrest' => ?_
    dsimp only
    exact (agree_others (by omega)).bind_eq fun others rest'' hrest'' => rfl

/-- Tokens form an expression if one is read off them and nothing is left. -/
theorem parse_eq (tokens : List Token) : parse tokens = (do
    let (expr, rest) ← expressionOf tokens
    match rest with
    | [] => return expr
    | token :: _ => .error (.trailingTokens token.text)) := by
  unfold parse enoughFuel
  exact (agree_expression (Nat.le_succ _)).bind_eq fun expr rest hrest => rfl

end BuildScript.Expr
