import BuildScript.Proofs.Clause.Places
import BuildScript.Proofs.Expr.Operands
import BuildScript.Script.Item

/-!
Where the parser expects an operand. Behind some tokens of a line an operand is expected if an integer
there is read as part of an expression. Any other integer is then read in the same way, with a sign or
without, and the token in front tells that an operand may begin, unless it ends a condition.
-/

namespace BuildScript

open Clause (Slot Spot Plain EndsCondition)
open BuildScript.Expr (Context Marked Minuses Opens parse_signed exists_marked signedTerm)
open Lexed (signAfter)

/-- The expression of a clause that is one, or has one, that parses. -/
def Clause.expression? (clause : Clause) : Option Expr :=
  match Item.ofClause clause with
  | .inl (.condition parsed) => parsed.toOption
  | .inl (.giveBack parsed) => parsed.bind Except.toOption
  | .inl (.expression expr) => some expr
  | _ => none

/-- The token at the index is in a clause that is read as the expression. -/
def ReadsAt (tokens : List Token) (index : Nat) (expr : Expr) : Prop :=
  ∃ offset clause, (offset, clause) ∈ Clause.split tokens ∧ offset ≤ index ∧
    index < offset + clause.width ∧ clause.expression? = some expr

/-- Behind the tokens the parser expects an operand: it takes an integer there. -/
def Expects (tokens : List Token) : Prop :=
  ∃ zero after expr, zero.kind = .literal (.int 0) ∧ ReadsAt (tokens ++ zero :: after) tokens.length expr

variable {tokens before after pre behind post : List Token} {tok tok' : Token} {expr expr' : Expr}
  {slot : Slot} {depth index : Nat}

section Statements

theorem Reader.exists_identifier {name : String} {rest : List Token}
    (h : Reader.identifier tokens = .ok (name, rest)) :
    ∃ word, tokens = word :: rest ∧ word.kind = .identifier name ∧
      ∀ rest', Reader.identifier (word :: rest') = .ok (name, rest') := by
  unfold Reader.identifier at h
  split at h
  · cases h
  · cases h
    exact ⟨_, rfl, rfl, fun _ => rfl⟩
  · cases h

/-- What begins a signature does so whatever follows, and has no literal and no operator. -/
theorem Statement.startsSignature_begin (h : startsSignature tokens = true) :
    ∃ front rest, tokens = front ++ rest ∧ (∀ token ∈ front, ¬Marked token) ∧
      ∀ rest', startsSignature (front ++ rest') = true := by
  unfold startsSignature at h
  split at h
  · cases h
  rename_i type behind htype
  split at h
  · cases h
  rename_i name rest hname
  obtain ⟨⟨word, others⟩, hword, hsuffix⟩ := Expr.bind_eq_ok htype
  obtain ⟨first, rfl, hfirst, hfirst'⟩ := Reader.exists_identifier hword
  obtain ⟨brackets, rfl, hbrackets, hmore⟩ := Expr.CoversBelow.exists_arrayType (Except.ok.inj hsuffix)
  obtain ⟨second, rfl, hsecond, hsecond'⟩ := Reader.exists_identifier hname
  obtain ⟨paren, rest, rfl, hparen⟩ : ∃ paren rest', rest = paren :: rest' ∧
      paren.kind = .separator .parenOpen := by
    unfold Reader.separator? at h
    split at h
    · exact ⟨_, _, rfl, congrArg _ (by simpa using h)⟩
    · cases h
  refine ⟨first :: (brackets ++ [second, paren]), rest, by simp, ?_, fun rest' => ?_⟩
  · intro token hmem hmarked
    rcases List.mem_cons.mp hmem with rfl | hmem
    · exact hmarked.not_identifier _ hfirst
    rcases List.mem_append.mp hmem with hmem | hmem
    · exact (hbrackets token hmem).elim (hmarked.not_separator _) (hmarked.not_separator _)
    rcases List.mem_pair.mp hmem with rfl | rfl
    · exact hmarked.not_identifier _ hsecond
    · exact hmarked.not_separator _ hparen
  · have hread : Reader.type (first :: (brackets ++ [second, paren]) ++ rest') =
        .ok (type, second :: paren :: rest') := by
      rw [List.cons_append, List.append_assoc, Reader.type, hfirst']
      exact congrArg Except.ok (hmore _ (by rintro _ ⟨⟩ hkind; cases hsecond.symm.trans hkind))
    rw [startsSignature, hread]
    dsimp only
    rw [hsecond']
    obtain ⟨kind, text, spaced⟩ := paren
    cases hparen
    rfl

theorem Statement.declaration_ne {α : Type} (header : α → Header) (read : Except SyntaxError α) :
    read.map (declaration ∘ header) ≠ .ok (expression expr) := by
  cases read <;> rintro ⟨⟩

/-- A statement that is an expression neither begins with a keyword nor like a signature. -/
theorem Statement.parse_eq_expression_iff : parse tokens = .ok (.expression expr) ↔
    (∀ token ∈ tokens.head?, token.kind ≠ .keyword .classWord ∧ token.kind ≠ .keyword .procedureWord) ∧
      startsSignature tokens = false ∧ Expr.parse tokens = .ok expr := by
  unfold parse
  split
  · exact iff_of_false (declaration_ne _ _) fun h => (h.1 _ rfl).1 rfl
  · exact iff_of_false (declaration_ne _ _) fun h => (h.1 _ rfl).2 rfl
  · rename_i hclass hprocedure
    have hhead : ∀ token ∈ tokens.head?,
        token.kind ≠ .keyword .classWord ∧ token.kind ≠ .keyword .procedureWord := by
      intro token hmem
      obtain ⟨rest, rfl⟩ := List.head?_eq_some_iff.mp hmem
      obtain ⟨kind, text, spaced⟩ := token
      exact ⟨fun hkind => hclass text spaced rest (by cases hkind; rfl),
        fun hkind => hprocedure text spaced rest (by cases hkind; rfl)⟩
    rw [and_iff_right hhead]
    cases startsSignature tokens with
    | true => exact iff_of_false (declaration_ne _ _) fun h => nomatch h.1
    | false =>
      cases Expr.parse tokens with
      | error e => exact iff_of_false nofun fun h => nomatch h.2
      | ok read =>
        constructor
        · rintro ⟨⟩
          exact ⟨rfl, rfl⟩
        · rintro ⟨-, ⟨⟩⟩
          rfl

theorem Clause.expression?_statement : (Clause.statement tokens).expression? = some expr ↔
    Statement.parse tokens = .ok (.expression expr) := by
  simp only [expression?, Item.ofClause]
  rcases Statement.parse tokens with e | read | header <;> simp

theorem Clause.expression?_condition :
    (Clause.condition tokens).expression? = some expr ↔ Expr.parse tokens = .ok expr := by
  simp only [expression?, Item.ofClause]
  cases Expr.parse tokens <;> simp [Except.toOption]

theorem Clause.expression?_giveBack (hne : tokens ≠ []) :
    (Clause.giveBack tokens).expression? = some expr ↔ Expr.parse tokens = .ok expr := by
  simp only [expression?, Item.ofClause, List.isEmpty_eq_false_iff.mpr hne]
  cases Expr.parse tokens <;> simp [Except.toOption]

/-- A clause that is an expression is one whatever else with a literal or an operator in front stands
from some place on, as long as it parses. -/
theorem Clause.Slot.expression?_place (h : (slot.clause (pre ++ tokens)).expression? = some expr)
    (hne : tokens ≠ []) : Expr.parse (pre ++ tokens) = .ok expr ∧
      ∀ tok rest expr', Marked tok → Expr.parse (pre ++ tok :: rest) = .ok expr' →
        (slot.clause (pre ++ tok :: rest)).expression? = some expr' := by
  cases slot with
  | condition =>
    exact ⟨Clause.expression?_condition.mp h, fun _ _ _ _ h' => Clause.expression?_condition.mpr h'⟩
  | giveBack =>
    exact ⟨(Clause.expression?_giveBack (List.append_ne_nil_of_right_ne_nil _ hne)).mp h,
      fun _ _ _ _ h' => (Clause.expression?_giveBack (by simp)).mpr h'⟩
  | missing => cases h
  | statement =>
    obtain ⟨hhead, hstarts, hparse⟩ :=
      Statement.parse_eq_expression_iff.mp (Clause.expression?_statement.mp h)
    refine ⟨hparse, fun tok rest expr' htok h' => Clause.expression?_statement.mpr ?_⟩
    refine Statement.parse_eq_expression_iff.mpr ⟨?_, eq_false_of_ne_true fun hsignature => ?_, h'⟩
    · cases pre with
      | nil =>
        rintro _ ⟨⟩
        exact ⟨htok.not_keyword _, htok.not_keyword _⟩
      | cons first pre => exact hhead
    · -- What begins a signature is in front of the place, so it begins one here too.
      obtain ⟨front, rest, hsplit, hfront, hmore⟩ := Statement.startsSignature_begin hsignature
      rcases Expr.append_eq_place hsplit.symm with ⟨b, rfl, -⟩ | ⟨p, rfl, -⟩
      · exact hfront tok (by simp) htok
      · have hbegin := hmore (p ++ tokens)
        rw [← List.append_assoc, hstarts] at hbegin
        cases hbegin

end Statements

section Places

/-- Where no clause ends or begins among the tokens of a statement, it is read at each of them. -/
theorem readsAt_statement (hlength : Clause.statementLength 0 tokens = tokens.length)
    (hindex : index < tokens.length) (hread : (Clause.statement tokens).expression? = some expr) :
    ReadsAt tokens index expr := by
  refine ⟨0, .statement tokens, ?_, Nat.zero_le _, by rwa [Nat.zero_add], hread⟩
  cases tokens with
  | nil => exact absurd hindex (Nat.not_lt_zero _)
  | cons token rest =>
    rw [Clause.statementLength] at hlength
    split at hlength
    · cases hlength
    · rename_i hboundary
      have hstatement := Clause.read?_statement (eq_false_of_ne_true hboundary) rest
      rw [Nat.succ.inj hlength, List.take_length] at hstatement
      rw [Clause.split, Clause.splitFrom_some hstatement]
      exact List.mem_cons_self

/-- What is read at a place behind which the reader is at a spot. -/
theorem Clause.Spot.readsAt_iff (h : Spot before slot pre depth) (htokens : ∀ token ∈ tokens, Plain token)
    (hindex : index < tokens.length) :
    ReadsAt (before ++ (tokens ++ after)) (before.length + index) expr ↔
      ∃ post, slot.taken? depth after = some post ∧
        (slot.clause (pre ++ (tokens ++ post))).expression? = some expr := by
  obtain ⟨first, others, rfl⟩ := List.exists_cons_of_length_pos (Nat.zero_lt_of_lt hindex)
  obtain ⟨hfirst, hothers⟩ := List.forall_mem_cons.mp htokens
  have hreads := h.reads 0 first (others ++ after) hfirst
  rw [taken?_plain hothers, Nat.zero_add] at hreads
  have htiles := tiles_splitFrom 0 (before ++ first :: (others ++ after))
  cases htaken : slot.taken? depth after with
  | none =>
    rw [htaken] at hreads
    obtain ⟨offset', e, hoffset, hmalformed⟩ := hreads
    refine iff_of_false (fun ⟨offset, clause, hmem, hbegun, hinside, _⟩ => ?_) nofun
    have hend := htiles.before_malformed hmalformed hmem
    omega
  | some post =>
    rw [htaken] at hreads
    obtain ⟨offset, hoffset, hmem⟩ := hreads
    have hwidth := Slot.lead_le_width htaken (pre ++ first :: (others ++ post))
    have hspan : offset ≤ before.length + index ∧ before.length + index <
        offset + (slot.clause (pre ++ first :: (others ++ post))).width := by
      simp only [List.length_append, List.length_cons] at hwidth hindex
      omega
    constructor
    · rintro ⟨offset', clause, hmem', hbegun, hinside, hexpr⟩
      obtain ⟨-, rfl⟩ := htiles.eq_of_span hmem hmem' hspan ⟨hbegun, hinside⟩
      exact ⟨post, rfl, hexpr⟩
    · rintro ⟨post', hpost, hexpr⟩
      cases hpost
      exact ⟨offset, _, hmem, hspan.1, hspan.2, hexpr⟩

theorem Clause.Spot.opens_pre (h : Spot before slot pre depth)
    (hsign : signAfter before.getLast? = true) : Opens pre := by
  obtain ⟨front, rfl⟩ := h.suffix
  by_cases hpre : pre = []
  · rw [hpre]
    rfl
  · rwa [List.getLast?_append_of_ne_nil _ hpre] at hsign

/-- Behind a condition no minus is taken for a sign. -/
theorem Clause.EndsCondition.not_signAfter (h : EndsCondition tokens) :
    signAfter tokens.getLast? = false := by
  obtain ⟨offset, inner, hmem, hwidth⟩ := h
  obtain ⟨before, slice, behind, rfl, hoffset, hcovers, -⟩ :=
    (tiles_splitFrom 0 tokens).exists_slice hmem nofun
  have hlength := hcovers.length_eq
  obtain rfl : behind = [] := by
    rw [← List.length_eq_zero_iff]
    simp only [List.length_append] at hwidth
    omega
  cases hcovers with
  | @condition word opening closing inner hword hopening hclosing =>
    have hconcat : before ++ (word :: opening :: (inner ++ [closing]) ++ []) =
        (before ++ word :: opening :: inner) ++ [closing] := by simp
    rw [hconcat, List.getLast?_concat, signAfter, isSeparator_iff.mp hclosing]
    rfl

theorem plain_literal {literal : Token} {value : Literal} (h : literal.kind = .literal value) :
    Plain literal := by
  rw [Plain, h]
  trivial

theorem plain_minuses {signs : List Token} (h : Minuses signs) : ∀ sign ∈ signs, Plain sign := by
  intro sign hmem
  rw [Plain, h sign hmem]
  trivial

theorem Expects.opens (h : Expects before) (hspot : Spot before slot pre depth) :
    slot ≠ .missing ∧ Opens pre := by
  obtain ⟨zero, after, expr, hzero, hread⟩ := h
  have hplain : ∀ token ∈ [zero], Plain token := List.forall_mem_singleton.mpr (plain_literal hzero)
  obtain ⟨post, htaken, hexpr⟩ :=
    (hspot.readsAt_iff hplain (show 0 < [zero].length from Nat.one_pos)).mp hread
  refine ⟨?_, Expr.opens_of_parse (Clause.Slot.expression?_place hexpr (by simp)).1 hzero⟩
  rintro rfl
  cases htaken

/-- Where an operand is expected a minus is taken for a sign, unless a condition ends there. -/
theorem Expects.signAfter_or (h : Expects before) :
    signAfter before.getLast? = true ∨ EndsCondition before := by
  obtain ⟨slot, pre, depth, hspot⟩ := Clause.exists_spot before
  obtain ⟨hslot, hopens⟩ := h.opens hspot
  by_cases hpre : pre = []
  · refine (hspot.opens hpre hslot).imp_right fun hcondition => ?_
    obtain ⟨offset, inner, hmem, hwidth⟩ := hcondition 0
    exact ⟨offset, inner, hmem, hwidth.trans (Nat.zero_add _)⟩
  · obtain ⟨front, rfl⟩ := hspot.suffix
    rw [List.getLast?_append_of_ne_nil _ hpre]
    exact .inl hopens

section Literals

variable {signs signs' : List Token} {literal literal' : Token} {value value' : Literal}

/-- Where a literal is read at a place at which an operand may begin, with minus signs in front of it or
none, any other is read in the same way. -/
theorem Clause.Spot.reads_signed (h : Spot before slot pre depth) (hopens : Opens pre)
    (hsigns : Minuses signs) (hliteral : literal.kind = .literal value)
    (hindex : index < (signs ++ [literal]).length)
    (hread : ReadsAt (before ++ (signs ++ [literal] ++ after)) (before.length + index) expr) :
    ∃ f wrap, Context f ∧ Context wrap ∧
      ((∀ token ∈ after.head?, Expr.EndsOperand token) → wrap = id) ∧
      ∀ signs' literal' value', Minuses signs' → literal'.kind = .literal value' →
        ReadsAt (before ++ (signs' ++ [literal'] ++ after)) before.length
          (f (signedTerm signs' (wrap (.literal value'))).expr) := by
  have hplain {signs : List Token} {literal : Token} {value : Literal} (hsigns : Minuses signs)
      (hliteral : literal.kind = .literal value) : ∀ token ∈ signs ++ [literal], Plain token :=
    List.forall_mem_append.mpr
      ⟨plain_minuses hsigns, List.forall_mem_singleton.mpr (plain_literal hliteral)⟩
  obtain ⟨post, htaken, hexpr⟩ := (h.readsAt_iff (hplain hsigns hliteral) hindex).mp hread
  obtain ⟨hparse, hother⟩ := Clause.Slot.expression?_place hexpr (by simp)
  obtain ⟨f, wrap, hf, hwrap, hend, hparses⟩ :=
    parse_signed (by simpa using hparse) hopens hsigns hliteral
  refine ⟨f, wrap, hf, hwrap, fun hafter => hend fun token hmem => ?_,
    fun signs' literal' value' hsigns' hliteral' => ?_⟩
  · obtain ⟨more, rfl⟩ := Clause.taken?_prefix htaken
    exact hafter token (by rw [List.head?_append, Option.mem_def.mp hmem]; rfl)
  · have hindex' : 0 < (signs' ++ [literal']).length := by simp
    refine (h.readsAt_iff (hplain hsigns' hliteral') hindex').mpr ⟨post, htaken, ?_⟩
    obtain ⟨tok, rest, hplace, htok⟩ := exists_marked hsigns' hliteral' post
    have hparse' := hparses signs' literal' value' hsigns' hliteral'
    rw [List.append_assoc, hplace] at hparse'
    have hlist : signs' ++ [literal'] ++ post = tok :: rest := by simpa using hplace
    rw [hlist]
    exact hother tok rest _ htok hparse'

/-- Where an operand is expected every literal, with minus signs in front of it or none, is read in the
same way, whatever else is in the line. -/
theorem Expects.reads (h : Expects before) (hsigns : Minuses signs)
    (hliteral : literal.kind = .literal value)
    (hread : ReadsAt (before ++ (signs ++ [literal] ++ after)) before.length expr) :
    ∃ f wrap, Context f ∧ Context wrap ∧
      ((∀ token ∈ after.head?, Expr.EndsOperand token) → wrap = id) ∧
      ∀ signs' literal' value', Minuses signs' → literal'.kind = .literal value' →
        ReadsAt (before ++ (signs' ++ [literal'] ++ after)) before.length
          (f (signedTerm signs' (wrap (.literal value'))).expr) := by
  obtain ⟨slot, pre, depth, hspot⟩ := Clause.exists_spot before
  exact hspot.reads_signed (h.opens hspot).2 hsigns hliteral
    (show 0 < (signs ++ [literal]).length by simp) hread

/-- A minus that is taken for a sign is one: an operand is expected in its place. -/
theorem Expects.of_minus {minus : Token} (h : Expects (before ++ [minus]))
    (hminus : minus.kind = .operator .subtract) (hsign : signAfter before.getLast? = true) :
    Expects before := by
  obtain ⟨zero, after, expr, hzero, hread⟩ := h
  obtain ⟨slot, pre, depth, hspot⟩ := Clause.exists_spot before
  have hline : before ++ [minus] ++ zero :: after = before ++ ([minus] ++ [zero] ++ after) := by simp
  rw [hline, List.length_append] at hread
  have hindex : 1 < ([minus] ++ [zero]).length := Nat.lt_succ_self 1
  obtain ⟨f, wrap, -, -, -, hreads⟩ := hspot.reads_signed (hspot.opens_pre hsign)
    (List.forall_mem_singleton.mpr hminus) hzero hindex hread
  exact ⟨zero, after, _, hzero, hreads [] zero _ (List.forall_mem_nil _) hzero⟩

/-- In a line nothing else is read at a place. -/
theorem ReadsAt.unique (h : ReadsAt tokens index expr) (h' : ReadsAt tokens index expr') :
    expr = expr' := by
  obtain ⟨offset, clause, hmem, hbegun, hinside, hexpr⟩ := h
  obtain ⟨offset', clause', hmem', hbegun', hinside', hexpr'⟩ := h'
  obtain ⟨-, rfl⟩ := (Clause.tiles_splitFrom 0 tokens).eq_of_span hmem hmem' ⟨hbegun, hinside⟩
    ⟨hbegun', hinside'⟩
  exact Option.some.inj (hexpr.symm.trans hexpr')

/-- Behind what is in front of a minus that may be a sign, it is one unless a condition ends there. -/
theorem Expects.signAfter_iff {minus : Token} (h : Expects (before ++ [minus]))
    (hminus : minus.kind = .operator .subtract) :
    signAfter before.getLast? = true ↔ Expects before ∧ ¬EndsCondition before := by
  constructor
  · intro hsign
    refine ⟨h.of_minus hminus hsign, fun hcondition => ?_⟩
    cases hsign.symm.trans hcondition.not_signAfter
  · rintro ⟨hexpects, hcondition⟩
    exact hexpects.signAfter_or.resolve_right hcondition

end Literals

end Places

end BuildScript
