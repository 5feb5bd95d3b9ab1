import BuildScript.Proofs.Expr.Frames

/-!
Where an operand begins. A literal or a sign begins a term, and in place of the term any other may
stand; an operator between operands does not. Which of the two a minus is can be told from the token in
front of it: a sign stands behind an opening separator, a comma or another operator, and a subtraction
behind the end of an operand.
-/

namespace BuildScript.Expr

open Lexed (signAfter)

variable {form form' : Form} {front middle rest pre post behind lead tail : List Token}
  {tok token : Token} {term : Term}

section Roles

/-- Suffixes and further terms follow an operand. -/
def Form.follows : Form → Bool
  | .others _ | .suffixes _ => true
  | _ => false

/-- What the token is to the form: the head of an operand, the beginning of a term, or an operator
between operands. -/
inductive Form.Role (form : Form) (rest pre : List Token) (tok : Token) (behind : List Token) : Prop
  | head (hpre : pre = []) (hform : (∃ expr, form = .operand expr) ∨ ∃ expr, form = .primary expr)
  | term {term : Term} {front post : List Token} (hopens : Opens pre)
    (hbegun : form.follows = true → pre ≠ []) (hbehind : behind = front ++ post)
    (hterm : Takes (.term term) (tok :: front) (post ++ rest)) (hframed : form.Framed pre post rest term)
  | joins {op : Operator} (hjoins : Joins tok op)
    (hcloses : Closes pre ∨ pre = [] ∧ ∃ others, form = .others others)

open Form (Framed Takes Role)

/-- A literal, or an operator that is no member access. -/
def Marked (token : Token) : Prop :=
  (∃ value, token.kind = .literal value) ∨ ∃ op, op ≠ .member ∧ token.kind = .operator op

theorem Marked.not_separator (h : Marked tok) (separator : Separator) :
    tok.kind ≠ .separator separator := by
  intro hkind
  rcases h with ⟨value, h⟩ | ⟨op, -, h⟩ <;> cases hkind.symm.trans h

theorem Marked.not_identifier (h : Marked tok) (name : String) : tok.kind ≠ .identifier name := by
  intro hkind
  rcases h with ⟨value, h⟩ | ⟨op, -, h⟩ <;> cases hkind.symm.trans h

theorem Marked.not_keyword (h : Marked tok) (keyword : Keyword) : tok.kind ≠ .keyword keyword := by
  intro hkind
  rcases h with ⟨value, h⟩ | ⟨op, -, h⟩ <;> cases hkind.symm.trans h

/-- A place in two lists one behind the other is in one of them. -/
theorem append_eq_place (h : front ++ middle = pre ++ tok :: behind) :
    (∃ b, front = pre ++ tok :: b ∧ behind = b ++ middle) ∨
      ∃ p, pre = front ++ p ∧ middle = p ++ tok :: behind := by
  rcases List.append_eq_append_iff.mp h with ⟨p, hpre, hmiddle⟩ | ⟨b, hfront, hbehind⟩
  · exact .inr ⟨p, hpre, hmiddle⟩
  · cases b with
    | nil => exact .inr ⟨[], by simpa using hfront.symm, by simpa using hbehind.symm⟩
    | cons first b =>
      obtain ⟨rfl, rfl⟩ := List.cons.inj hbehind
      exact .inl ⟨b, hfront, rfl⟩

/-- The place is the first token, or behind it. -/
theorem cons_eq_place (h : token :: front = pre ++ tok :: behind) :
    (pre = [] ∧ tok = token ∧ behind = front) ∨ ∃ p, pre = token :: p ∧ front = p ++ tok :: behind := by
  cases pre with
  | nil =>
    obtain ⟨rfl, rfl⟩ := List.cons.inj h
    exact .inl ⟨rfl, rfl, rfl⟩
  | cons first p =>
    obtain ⟨rfl, rfl⟩ := List.cons.inj h
    exact .inr ⟨p, rfl, rfl⟩

/-- What a token is to a form it is to one that has the form behind some tokens and in front of others:
behind an operand if the form follows one, and else where an operand may begin. -/
theorem Form.Role.within (lead tail : List Token) (h : form'.Role (tail ++ rest) pre tok behind)
    (hhead : ∀ expr, form' ≠ .operand expr ∧ form' ≠ .primary expr)
    (hlead : if form'.follows then Closes lead else Opens lead)
    (hbegun : form.follows = true → lead ≠ [])
    (hframed : ∀ term front post, behind = front ++ post →
      (form'.follows = true → pre ≠ []) → Takes (.term term) (tok :: front) (post ++ (tail ++ rest)) →
        form'.Framed pre post (tail ++ rest) term →
          form.Framed (lead ++ pre) (post ++ tail) rest term) :
    form.Role rest (lead ++ pre) tok (behind ++ tail) := by
  cases h with
  | head _ hform =>
    rcases hform with ⟨expr, hform⟩ | ⟨expr, hform⟩
    · exact absurd hform (hhead expr).1
    · exact absurd hform (hhead expr).2
  | @term term front post hopens hpre hbehind hterm hinner =>
    have hbehind' : behind ++ tail = front ++ (post ++ tail) := by rw [hbehind, List.append_assoc]
    refine .term ?_ (fun hform hnil => hbegun hform (List.append_eq_nil_iff.mp hnil).1) hbehind'
      (by rwa [List.append_assoc]) (hframed term front post hbehind hpre hterm hinner)
    by_cases hfollows : form'.follows = true
    · exact hopens.append_ne_nil (hpre hfollows)
    · exact hopens.append (by rwa [if_neg hfollows] at hlead)
  | joins hjoins hcloses =>
    rcases hcloses with hcloses | ⟨rfl, others, rfl⟩
    · exact .joins hjoins (.inl (hcloses.append lead))
    · refine .joins hjoins (.inl ?_)
      rw [List.append_nil]
      exact hlead

/-- The same where the form ends with the inner one. -/
theorem Form.Role.at_end (lead : List Token) (h : form'.Role rest pre tok behind)
    (hhead : ∀ expr, form' ≠ .operand expr ∧ form' ≠ .primary expr)
    (hlead : if form'.follows then Closes lead else Opens lead)
    (hbegun : form.follows = true → lead ≠ [])
    (hframed : ∀ term front post, behind = front ++ post →
      (form'.follows = true → pre ≠ []) → Takes (.term term) (tok :: front) (post ++ rest) →
        form'.Framed pre post rest term → form.Framed (lead ++ pre) post rest term) :
    form.Role rest (lead ++ pre) tok behind := by
  have hinner : form'.Role ([] ++ rest) pre tok behind := h
  have hrole := hinner.within lead [] hhead hlead hbegun
    fun term front post hbehind hpre hterm hterm' => by
      rw [List.append_nil]
      exact hframed term front post hbehind hpre hterm hterm'
  rwa [List.append_nil] at hrole

theorem closes_single {kind : TokenKind} (hkind : token.kind = kind)
    (hcloses : signAfter (some ⟨kind, "", false⟩) = false) : signAfter (some token) = false := by
  obtain ⟨kind', text, spaced⟩ := token
  cases hkind
  exact hcloses

theorem opens_single {kind : TokenKind} (hkind : token.kind = kind)
    (hopens : signAfter (some ⟨kind, "", false⟩) = true) : Opens [token] := by
  obtain ⟨kind', text, spaced⟩ := token
  cases hkind
  exact hopens

theorem signOf?_opens {op : Operator} (h : signOf? token = some op) : Opens [token] := by
  unfold signOf? at h
  split at h
  · exact opens_single ‹_› rfl
  · exact opens_single ‹_› rfl
  · exact opens_single ‹_› rfl
  · cases h

theorem Form.Takes.role_first (h : Takes (.term term) (tok :: behind) rest) :
    (Form.term term).Role rest [] tok behind := by
  refine .term rfl nofun (List.append_nil behind).symm h
    ⟨id, ⟨id, .here, fun part hpart => ⟨hpart, rfl⟩⟩, rfl, fun part front hpart => ?_⟩
  rwa [List.nil_append, List.append_nil]

/-- The head of an operand begins a term. -/
theorem Form.Role.of_operand {expr : Expr} (h : (Form.operand expr).Role rest pre tok behind)
    (htakes : Takes (.operand expr) (pre ++ tok :: behind) rest) :
    (Form.term ⟨[], expr⟩).Role rest pre tok behind := by
  cases h with
  | head hpre =>
    subst hpre
    exact (Takes.unsigned htakes).role_first
  | term hopens _ hbehind hterm hframed =>
    exact .term hopens nofun hbehind hterm (framed_unsigned hframed)
  | joins hjoins hcloses =>
    exact .joins hjoins (hcloses.imp_right fun ⟨_, _, hform⟩ => by cases hform)

/-- The head of what an operand begins with is the head of the operand. -/
theorem Form.Role.of_primary {expr : Expr} {wrap : Expr → Expr}
    (h : (Form.primary expr).Role (middle ++ rest) pre tok behind)
    (hwrap : Takes (.suffixes wrap) middle rest) :
    (Form.operand (wrap expr)).Role rest pre tok (behind ++ middle) := by
  cases h with
  | head hpre => exact .head hpre (.inl ⟨_, rfl⟩)
  | @term term front post hopens _ hbehind hterm hframed =>
    have hbehind' : behind ++ middle = front ++ (post ++ middle) := by rw [hbehind, List.append_assoc]
    exact .term hopens nofun hbehind' (by rwa [List.append_assoc]) (framed_operand hframed hwrap)
  | joins hjoins hcloses =>
    exact .joins hjoins (hcloses.imp_right fun ⟨_, _, hform⟩ => by cases hform)

/-- The place is behind a separator. -/
theorem Marked.behind_separator {separator : Separator} (htok : Marked tok)
    (htoken : token.kind = .separator separator) (h : token :: front = pre ++ tok :: behind) :
    ∃ p, pre = token :: p ∧ front = p ++ tok :: behind := by
  rcases cons_eq_place h with ⟨-, rfl, -⟩ | hplace
  · exact absurd htoken (htok.not_separator _)
  · exact hplace

/-- The place is in front of a separator. -/
theorem Marked.before_separator {closing : Token} {separator : Separator} (htok : Marked tok)
    (hclosing : closing.kind = .separator separator) (h : front ++ [closing] = pre ++ tok :: behind) :
    ∃ b, front = pre ++ tok :: b ∧ behind = b ++ [closing] := by
  rcases append_eq_place h with hplace | ⟨p, rfl, hplace⟩
  · exact hplace
  · obtain ⟨p, -, hnil⟩ := htok.behind_separator hclosing hplace
    simp at hnil

theorem Marked.not_place (htok : Marked tok) (hfront : ∀ token ∈ front, ¬Marked token) :
    front ≠ pre ++ tok :: behind := by
  rintro rfl
  exact hfront tok (by simp) htok

/-- What stands at a place among the tokens of a form. -/
theorem Form.Takes.role (h : form.Takes front rest) (htok : Marked tok)
    (hfront : front = pre ++ tok :: behind) : form.Role rest pre tok behind := by
  induction h generalizing pre behind with
  | @expression first others front middle rest hfirst hothers ihfirst ihothers =>
    rcases append_eq_place hfront with ⟨b, rfl, rfl⟩ | ⟨p, rfl, rfl⟩
    · exact (ihfirst rfl).within [] middle (by simp) rfl nofun
        fun _ _ _ _ _ hterm hframed => framed_first hframed hterm.shape hothers
    · refine (ihothers rfl).at_end front (by simp) hfirst.closes nofun
        fun term part post hb hp hterm hframed => framed_others hframed hterm.shape hfirst.shape ?_
      exact Form.Takes.beside (by simpa [hb] using hfirst) (hp rfl) hterm
  | unsigned hoperand ih =>
    subst hfront
    exact (ih rfl).of_operand hoperand
  | @sign token op term front rest hsign hterm ih =>
    rcases cons_eq_place hfront with ⟨rfl, rfl, rfl⟩ | ⟨p, rfl, rfl⟩
    · exact (Takes.sign hsign hterm).role_first
    · exact (ih rfl).at_end [token] (by simp) (signOf?_opens hsign) nofun
        fun _ _ _ _ _ _ hframed => framed_sign hframed hsign
  | noOthers | noSuffixes => simp at hfront
  | @joined token op term others front middle rest hjoins hterm hothers ihterm ihothers =>
    rcases cons_eq_place hfront with ⟨rfl, rfl, rfl⟩ | ⟨p, rfl, hplace⟩
    · exact .joins hjoins (.inr ⟨rfl, _, rfl⟩)
    · rcases append_eq_place hplace with ⟨b, rfl, rfl⟩ | ⟨p, rfl, rfl⟩
      · exact (ihterm rfl).within [token] middle (by simp) (opens_single hjoins.1 rfl) (by simp)
          fun _ _ _ _ _ hpart hframed => framed_joined_term hframed hjoins hothers
      · refine (ihothers rfl).at_end (token :: front) (by simp) (Closes.cons hterm.closes token) (by simp)
          fun term part post hb hp hpart hframed => framed_joined_others hframed hjoins hterm.shape ?_
        exact Form.Takes.beside (by simpa [hb] using hterm) (hp rfl) hpart
  | @operand primary wrap front middle rest hprimary hwrap ihprimary ihwrap =>
    rcases append_eq_place hfront with ⟨b, rfl, rfl⟩ | ⟨p, rfl, rfl⟩
    · exact (ihprimary rfl).of_primary hwrap
    · refine (ihwrap rfl).at_end front (by simp) hprimary.closes nofun
        fun term part post hb hp hpart hframed => framed_suffixes hframed ?_
      exact Form.Takes.beside (by simpa [hb] using hprimary) (hp rfl) hpart
  | @call token arguments wrap front middle rest htoken harguments hwrap iharguments ihwrap =>
    obtain ⟨p, rfl, hplace⟩ := htok.behind_separator htoken hfront
    rcases append_eq_place hplace with ⟨b, rfl, rfl⟩ | ⟨p, rfl, rfl⟩
    · exact (iharguments rfl).within [token] middle (by simp) (opens_single htoken rfl) (by simp)
        fun _ _ _ _ _ hpart hframed => framed_call hframed htoken hwrap
    · refine (ihwrap rfl).at_end (token :: front) (by simp) (Closes.cons harguments.closes token)
        (by simp) fun term part post hb hp hpart hframed => framed_wrap hframed (Expr.call · arguments) ?_
      have hbeside : Beside (.arguments arguments) front p post rest :=
        Form.Takes.beside (by simpa [hb] using harguments) (hp rfl) hpart
      intro wrap part front' hpart hwrap
      simpa using Takes.call htoken (hbeside part front' hpart) hwrap
  | @index token closing index wrap front middle rest htoken hindex hclosing hwrap ihindex ihwrap =>
    obtain ⟨p, rfl, hplace⟩ := htok.behind_separator htoken hfront
    rcases append_eq_place hplace with ⟨b, rfl, rfl⟩ | ⟨p, rfl, hmiddle⟩
    · exact (ihindex rfl).within [token] (closing :: middle) (by simp) (opens_single htoken rfl) (by simp)
        fun _ _ _ _ _ hpart hframed => framed_index hframed htoken hclosing hwrap
    · obtain ⟨p, rfl, rfl⟩ := htok.behind_separator hclosing hmiddle
      have hcloses : Closes (token :: front ++ [closing]) := closes_concat _ (closes_single hclosing rfl)
      have hrole : Role (.suffixes fun expr => wrap (.binary .arrayAccess expr index)) rest
          (token :: front ++ [closing] ++ p) tok behind := by
        refine (ihwrap rfl).at_end (token :: front ++ [closing]) (by simp) hcloses (by simp)
          fun term part post hb hp hpart hframed =>
            framed_wrap hframed (Expr.binary .arrayAccess · index) ?_
        have hbeside : Beside (.expression index) front (closing :: p) post rest :=
          Form.Takes.beside (by simpa [hb] using hindex) (List.cons_ne_nil _ _) hpart
        intro wrap part front' hpart hwrap
        have hindex' : Takes (.expression index) front (closing :: (p ++ front' ++ post ++ rest)) :=
          hbeside part front' hpart
        simpa using Takes.index htoken hindex' hclosing hwrap
      simpa using hrole
  | @member token word name wrap middle rest htoken hword hwrap ihwrap =>
    rcases cons_eq_place hfront with ⟨-, rfl, -⟩ | ⟨p, rfl, hplace⟩
    · rcases htok with ⟨value, hkind⟩ | ⟨op, hop, hkind⟩ <;> cases htoken.symm.trans hkind
      exact absurd rfl hop
    · rcases cons_eq_place hplace with ⟨-, rfl, -⟩ | ⟨p, rfl, rfl⟩
      · exact absurd hword (htok.not_identifier _)
      · refine (ihwrap rfl).at_end [token, word] (by simp)
          (closes_concat [token] (closes_single hword rfl)) (by simp)
          fun _ _ _ _ _ _ hframed => framed_wrap hframed (Expr.member · name) ?_
        exact fun _ _ _ _ hwrap => .member htoken hword hwrap
  | @literal token value rest htoken =>
    rcases cons_eq_place hfront with ⟨rfl, -, -⟩ | ⟨p, -, hplace⟩
    · exact .head rfl (.inr ⟨_, rfl⟩)
    · simp at hplace
  | @ownMember token name rest htoken =>
    refine absurd hfront (htok.not_place (List.forall_mem_singleton.mpr ?_))
    rintro (⟨_, hkind⟩ | ⟨_, -, hkind⟩) <;> cases htoken.symm.trans hkind
  | name htoken =>
    refine absurd hfront (htok.not_place (List.forall_mem_singleton.mpr fun h => ?_))
    exact h.not_identifier _ htoken
  | @declare token word name declared type brackets rest htoken htype hword =>
    refine absurd hfront (htok.not_place fun other hmem h => ?_)
    rcases List.mem_cons.mp hmem with rfl | hmem
    · exact h.not_identifier _ htoken
    rcases List.mem_append.mp hmem with hmem | hmem
    · exact (htype.isBracket _ hmem).elim (h.not_separator _) (h.not_separator _)
    · exact h.not_identifier _ (List.mem_singleton.mp hmem ▸ hword)
  | @cast token after name type arguments front rest htoken htype hafter harguments ih =>
    rcases cons_eq_place hfront with ⟨-, rfl, -⟩ | ⟨p, rfl, hplace⟩
    · exact absurd htoken (htok.not_identifier _)
    · obtain ⟨p, rfl, rfl⟩ := htok.behind_separator hafter hplace
      have hopens : Opens ([token] ++ [after]) :=
        Opens.append_ne_nil (opens_single hafter rfl) (List.cons_ne_nil _ _)
      exact (ih rfl).at_end [token, after] (by simp) hopens nofun
        fun _ _ _ _ _ _ hframed => framed_cast hframed htoken htype hafter
  | @paren token closing inner front rest htoken hinner hclosing ih =>
    obtain ⟨p, rfl, hplace⟩ := htok.behind_separator htoken hfront
    obtain ⟨b, rfl, rfl⟩ := htok.before_separator hclosing hplace
    exact (ih rfl).within [token] [closing] (by simp) (opens_single htoken rfl) nofun
      fun _ _ _ _ _ _ hframed => framed_paren hframed htoken hclosing
  | @emptyArray token closing rest htoken hclosing =>
    refine absurd hfront (htok.not_place (List.forall_mem_cons.mpr ⟨fun h => ?_,
      List.forall_mem_singleton.mpr fun h => ?_⟩))
    · exact h.not_separator _ htoken
    · exact h.not_separator _ hclosing
  | @array token elements front rest htoken helements ih =>
    obtain ⟨p, rfl, rfl⟩ := htok.behind_separator htoken hfront
    exact (ih rfl).at_end [token] (by simp) (opens_single htoken rfl) nofun
      fun _ _ _ _ _ _ hframed => framed_array hframed htoken
  | @last close closing expr front rest hexpr hclosing ih =>
    obtain ⟨b, rfl, rfl⟩ := htok.before_separator hclosing hfront
    exact (ih rfl).within [] [closing] (by simp) rfl nofun
      fun _ _ _ _ _ _ hframed => framed_last hframed hclosing
  | @next close comma expr exprs front middle rest hexpr hcomma hexprs ihexpr ihexprs =>
    rcases append_eq_place hfront with ⟨b, rfl, rfl⟩ | ⟨p, rfl, hplace⟩
    · exact (ihexpr rfl).within [] (comma :: middle) (by simp) rfl nofun
        fun _ _ _ _ _ _ hframed => framed_listed hframed hcomma hexprs
    · obtain ⟨p, rfl, rfl⟩ := htok.behind_separator hcomma hplace
      have hopens : Opens (front ++ [comma]) :=
        Opens.append_ne_nil (opens_single hcomma rfl) (List.cons_ne_nil _ _)
      have hrole : Role (.listed close (expr :: exprs)) rest (front ++ [comma] ++ p) tok behind := by
        refine (ihexprs rfl).at_end (front ++ [comma]) (by simp) hopens nofun
          fun term part post hb hp hpart hframed => ?_
        have hbeside : Beside (.expression expr) front (comma :: p) post rest :=
          Form.Takes.beside (by simpa [hb] using hexpr) (List.cons_ne_nil _ _) hpart
        simpa using framed_next hframed hcomma hbeside
      simpa using hrole
  | noArguments hclosing =>
    refine absurd hfront (htok.not_place (List.forall_mem_singleton.mpr fun h => ?_))
    exact h.not_separator _ hclosing
  | @arguments exprs front rest hexprs ih =>
    subst hfront
    exact (ih rfl).at_end [] (by simp) rfl nofun fun _ _ _ _ _ _ hframed => framed_arguments hframed

end Roles

section Literals

open Form (Takes)

variable {signs signs' : List Token} {literal literal' : Token} {value value' : Literal} {expr : Expr}
  {wrap : Expr → Expr}

/-- The tokens are minus signs. -/
def Minuses (signs : List Token) : Prop := ∀ sign ∈ signs, sign.kind = .operator .subtract

/-- A literal with signs in front of it, once what follows is put around it. -/
def signedTerm (signs : List Token) (operand : Expr) : Term := ⟨signs.map fun _ => .negate, operand⟩

/-- A term at a place where a literal or a sign parses; any other may stand there. -/
theorem exists_term (h : parse (pre ++ tok :: behind) = .ok expr) (htok : Marked tok)
    (hopens : (∃ op, tok.kind = .operator op) → Opens pre) :
    ∃ f term front post, Opens pre ∧ behind = front ++ post ∧ Takes (.term term) (tok :: front) post ∧
      Context f ∧ ∀ part front', Takes (.term part) front' post →
        parse (pre ++ front' ++ post) = .ok (f part.expr) := by
  cases (parse_eq_ok_iff.mp h).role htok rfl with
  | head _ hform => rcases hform with ⟨_, hform⟩ | ⟨_, hform⟩ <;> cases hform
  | @term term front post hpre _ hbehind hterm hframed =>
    obtain ⟨f, hf, -, hframes⟩ := hframed
    rw [List.append_nil] at hterm
    refine ⟨f, term, front, post, hpre, hbehind, hterm, hf, fun part front' hpart => ?_⟩
    exact parse_eq_ok_iff.mpr (hframes part front' (by rwa [List.append_nil]))
  | joins hjoins hcloses =>
    rcases hcloses with hcloses | ⟨-, _, hform⟩
    · exact absurd hcloses (hopens ⟨_, hjoins.1⟩).not_closes
    · cases hform

/-- A literal stands where an operand may begin. -/
theorem opens_of_parse (h : parse (pre ++ literal :: behind) = .ok expr)
    (hliteral : literal.kind = .literal value) : Opens pre := by
  obtain ⟨-, -, -, -, hopens, -⟩ := exists_term h (.inl ⟨value, hliteral⟩) fun ⟨op, hkind⟩ => by
    cases hliteral.symm.trans hkind
  exact hopens

theorem takes_literal_primary (h : Takes (.primary expr) (literal :: front) rest)
    (hliteral : literal.kind = .literal value) : expr = .literal value ∧ front = [] := by
  cases h with
  | literal htoken =>
    cases hliteral.symm.trans htoken
    exact ⟨rfl, rfl⟩
  | ownMember htoken | name htoken | declare htoken | cast htoken | paren htoken | emptyArray htoken
  | array htoken => cases hliteral.symm.trans htoken

theorem takes_literal (h : Takes (.term term) (literal :: front) rest)
    (hliteral : literal.kind = .literal value) :
    ∃ wrap, term = ⟨[], wrap (.literal value)⟩ ∧ Takes (.suffixes wrap) front rest := by
  cases h with
  | sign hsign =>
    unfold signOf? at hsign
    rw [hliteral] at hsign
    cases hsign
  | @unsigned expr _ _ hoperand =>
    generalize htokens : literal :: front = tokens at hoperand
    cases hoperand with
    | @operand primary wrap begun middle _ hprimary hwrap =>
      obtain ⟨token, hmem, -⟩ := hprimary.exists_head
      obtain ⟨begun, rfl⟩ := List.head?_eq_some_iff.mp hmem
      obtain ⟨rfl, rfl⟩ := List.cons.inj htokens
      obtain ⟨rfl, rfl⟩ := takes_literal_primary hprimary hliteral
      exact ⟨wrap, rfl, hwrap⟩

theorem takes_operand_head {op : Operator} (h : Takes (.operand expr) (token :: front) rest) :
    token.kind ≠ .operator op := by
  intro hkind
  generalize htokens : token :: front = tokens at h
  cases h with
  | @operand primary wrap begun middle _ hprimary hwrap =>
    obtain ⟨first, hmem, -⟩ := hprimary.exists_head
    obtain ⟨begun, rfl⟩ := List.head?_eq_some_iff.mp hmem
    obtain ⟨rfl, -⟩ := List.cons.inj htokens
    cases hprimary with
    | literal htoken | ownMember htoken | name htoken | declare htoken | cast htoken | paren htoken
    | emptyArray htoken | array htoken => cases hkind.symm.trans htoken

/-- Signs and the literal behind them are taken together with the suffixes of the literal. -/
theorem takes_signed {tokens : List Token} (h : Takes (.term term) tokens rest)
    (htokens : tokens ++ rest = signs ++ literal :: behind) (hsigns : Minuses signs)
    (hliteral : literal.kind = .literal value) :
    ∃ wrap front, behind = front ++ rest ∧ Takes (.suffixes wrap) front rest := by
  induction signs generalizing term tokens with
  | nil =>
    obtain ⟨token, hmem, -⟩ := h.exists_head
    obtain ⟨front, rfl⟩ := List.head?_eq_some_iff.mp hmem
    obtain ⟨rfl, rfl⟩ := List.cons.inj htokens
    obtain ⟨wrap, -, hwrap⟩ := takes_literal h hliteral
    exact ⟨wrap, front, rfl, hwrap⟩
  | cons sign signs ih =>
    obtain ⟨hsign, hsigns⟩ := List.forall_mem_cons.mp hsigns
    cases h with
    | @unsigned expr _ _ hoperand =>
      obtain ⟨token, hmem, -⟩ := hoperand.exists_head
      obtain ⟨front, rfl⟩ := List.head?_eq_some_iff.mp hmem
      obtain ⟨rfl, -⟩ := List.cons.inj htokens
      exact absurd hsign (takes_operand_head hoperand)
    | @sign token op term front _ hop hterm =>
      rw [List.cons_append, List.cons_append] at htokens
      exact ih hterm (List.cons.inj htokens).2 hsigns

theorem Form.Takes.signed (h : Takes (.suffixes wrap) front rest) (hsigns : Minuses signs)
    (hliteral : literal.kind = .literal value) :
    Takes (.term (signedTerm signs (wrap (.literal value)))) (signs ++ literal :: front) rest := by
  induction signs with
  | nil =>
    have hoperand : Takes (.operand (wrap (.literal value))) ([literal] ++ front) rest :=
      .operand (.literal hliteral) h
    exact .unsigned hoperand
  | cons sign signs ih =>
    obtain ⟨hsign, hsigns⟩ := List.forall_mem_cons.mp hsigns
    have hop : signOf? sign = some .negate := by
      unfold signOf?
      rw [hsign]
    exact .sign hop (ih hsigns)

theorem exists_marked (hsigns : Minuses signs) (hliteral : literal.kind = .literal value)
    (behind : List Token) : ∃ tok others, signs ++ literal :: behind = tok :: others ∧ Marked tok := by
  cases signs with
  | nil => exact ⟨literal, behind, rfl, .inl ⟨value, hliteral⟩⟩
  | cons sign signs =>
    exact ⟨sign, signs ++ literal :: behind, rfl,
      .inr ⟨.subtract, by decide, hsigns sign List.mem_cons_self⟩⟩

/-- Where a literal parses, with signs in front of it or not, any other does, with others or none. -/
theorem parse_signed (h : parse (pre ++ signs ++ literal :: behind) = .ok expr) (hopens : Opens pre)
    (hsigns : Minuses signs) (hliteral : literal.kind = .literal value) :
    ∃ f wrap, Context f ∧ Context wrap ∧ ((∀ token ∈ behind.head?, EndsOperand token) → wrap = id) ∧
      ∀ signs' literal' value', Minuses signs' → literal'.kind = .literal value' →
        parse (pre ++ signs' ++ literal' :: behind) =
          .ok (f (signedTerm signs' (wrap (.literal value'))).expr) := by
  obtain ⟨tok, others, hplace, htok⟩ := exists_marked hsigns hliteral behind
  rw [List.append_assoc, hplace] at h
  obtain ⟨f, term, front, post, -, rfl, hterm, hf, hframes⟩ := exists_term h htok fun _ => hopens
  obtain ⟨wrap, suffixes, rfl, hwrap⟩ := takes_signed hterm hplace.symm hsigns hliteral
  refine ⟨f, wrap, hf, hwrap.shape, fun hend => ?_, fun signs' literal' value' hsigns' hliteral' => ?_⟩
  · cases hwrap with
    | noSuffixes => rfl
    | call htoken => exact absurd htoken (hend _ rfl).1
    | index htoken => exact absurd htoken (hend _ rfl).2.1
    | member htoken => exact absurd htoken (hend _ rfl).2.2
  · have hparse := hframes _ _ (hwrap.signed hsigns' hliteral')
    simpa using hparse

end Literals

end BuildScript.Expr
