import BuildScript.Proofs.Expr.Contexts
import BuildScript.Proofs.Expr.Forms

/-!
Terms in their places. A form that has a term at some place has there any other in the same way, and
around what the term is read as stands the same context. What comes before the place ends where an
operand may begin, or with the end of an operand; the last token tells which.
-/

namespace BuildScript.Expr

open Lexed (signAfter)

variable {form form' : Form} {front middle rest pre post behind lead tail : List Token}
  {tok token : Token} {term part : Term}

/-- An operand may begin behind the tokens. -/
def Opens (tokens : List Token) : Prop := signAfter tokens.getLast? = true

/-- The tokens end with the end of an operand. -/
def Closes (tokens : List Token) : Prop := signAfter tokens.getLast? = false

section Ends

theorem Opens.append (h : Opens pre) (hlead : Opens lead) : Opens (lead ++ pre) := by
  unfold Opens at *
  rw [List.getLast?_append]
  cases hlast : pre.getLast? with
  | none => exact hlead
  | some last => rwa [hlast] at h

theorem Opens.append_ne_nil (h : Opens pre) (hne : pre ≠ []) : Opens (lead ++ pre) := by
  unfold Opens at *
  rwa [List.getLast?_append_of_ne_nil _ hne]

theorem Closes.ne_nil (h : Closes pre) : pre ≠ [] := by
  rintro rfl
  cases h

theorem Closes.append (h : Closes pre) (lead : List Token) : Closes (lead ++ pre) := by
  unfold Closes at *
  rwa [List.getLast?_append_of_ne_nil _ (Closes.ne_nil h)]

theorem Closes.cons (h : Closes pre) (token : Token) : Closes (token :: pre) := h.append [token]

theorem Opens.not_closes (h : Opens pre) : ¬Closes pre := by
  unfold Opens Closes at *
  rw [h]
  exact Bool.noConfusion

theorem closes_concat (front : List Token) (htoken : signAfter (some token) = false) :
    Closes (front ++ [token]) := by
  unfold Closes
  rwa [List.getLast?_concat]

/-- What a form takes ends with the end of an operand, or with nothing where suffixes or further terms
may be missing. -/
theorem Form.Takes.closes (h : form.Takes front rest) : match form with
    | .others _ | .suffixes _ => front = [] ∨ Closes front
    | .listed close _ => close = .parenClose ∨ close = .bracketClose → Closes front
    | _ => Closes front := by
  have happend {front middle : List Token} (hfront : Closes front)
      (hmiddle : middle = [] ∨ Closes middle) : Closes (front ++ middle) := by
    rcases hmiddle with rfl | hmiddle
    · rwa [List.append_nil]
    · exact hmiddle.append front
  have hsingle {token : Token} {kind : TokenKind} (htoken : token.kind = kind)
      (hkind : signAfter (some ⟨kind, "", false⟩) = false) : signAfter (some token) = false := by
    subst htoken
    exact hkind
  induction h with
  | expression _ _ ihfirst ihothers => exact happend ihfirst ihothers
  | unsigned _ ih => exact ih
  | sign _ _ ih => exact ih.cons _
  | noOthers => exact .inl rfl
  | joined _ _ _ ihterm ihothers => exact .inr ((happend ihterm ihothers).cons _)
  | operand _ _ ihprimary ihwrap => exact happend ihprimary ihwrap
  | noSuffixes => exact .inl rfl
  | call _ _ _ iharguments ihwrap => exact .inr ((happend iharguments ihwrap).cons _)
  | @index token closing index wrap front middle rest _ _ hclosing _ _ ihwrap =>
    refine .inr (.cons ?_ _)
    rw [List.append_cons]
    exact happend (closes_concat front (hsingle hclosing rfl)) ihwrap
  | @member token word name wrap middle rest _ hword _ ihwrap =>
    exact .inr ((happend (closes_concat [token] (hsingle hword rfl)) ihwrap))
  | literal htoken | ownMember htoken | name htoken => exact hsingle htoken rfl
  | @declare token word name declared type brackets rest _ _ hword =>
    exact closes_concat (token :: brackets) (hsingle hword rfl)
  | cast _ _ _ _ ih => exact (ih.cons _).cons _
  | @paren token closing inner front rest _ _ hclosing _ =>
    exact closes_concat (token :: front) (hsingle hclosing rfl)
  | @emptyArray token closing rest _ hclosing => exact closes_concat [token] (hsingle hclosing rfl)
  | array _ _ ih => exact (ih (.inr rfl)).cons _
  | @last close closing expr front rest _ hclosing _ =>
    rintro (rfl | rfl) <;> exact closes_concat front (hsingle hclosing rfl)
  | @next close comma expr exprs front middle rest _ _ _ _ ih =>
    exact fun hclose => ((ih hclose).cons comma).append front
  | noArguments hclosing => exact closes_concat [] (hsingle hclosing rfl)
  | arguments _ ih => exact ih (.inl rfl)

end Ends

section Frames

theorem signOf?_isUnary {op : Operator} (h : signOf? token = some op) : op.isUnary = true := by
  unfold signOf? at h
  split at h <;> cases h <;> rfl

/-- Signs stand in front of operands, operators that take two operands between them, and suffixes put
something around an operand. -/
theorem Form.Takes.shape (h : form.Takes front rest) : match form with
    | .term read => read.Unary
    | .others read => Chain.Follow read
    | .suffixes wrap => Context wrap
    | _ => True := by
  induction h with
  | unsigned => exact List.forall_mem_nil _
  | sign hsign _ ih => exact List.forall_mem_cons.mpr ⟨signOf?_isUnary hsign, ih⟩
  | noOthers => exact List.forall_mem_nil _
  | joined hjoins _ _ ihterm ihothers => exact List.forall_mem_cons.mpr ⟨⟨hjoins.2, ihterm⟩, ihothers⟩
  | noSuffixes => exact .here
  | call _ _ _ _ ihwrap => exact ihwrap.comp (.callee _ .here)
  | index _ _ _ _ _ ihwrap => exact ihwrap.comp (.left _ _ .here)
  | member _ _ _ ihwrap => exact ihwrap.comp (.member _ .here)
  | _ => trivial

/-- A term that is made of another puts a context around it. -/
def Wraps (T : Term → Term) : Prop :=
  ∃ f, Context f ∧ ∀ part : Term, part.Unary → (T part).Unary ∧ (T part).expr = f part.expr

/-- Between the tokens before it and those behind it any term makes the form, and it stands in what the
form is read as at one place. -/
def Frames (hole : Term → Form) (pre post rest : List Token) : Prop :=
  ∀ part front, Form.Takes (.term part) front (post ++ rest) →
    Form.Takes (hole part) (pre ++ front ++ post) rest

/-- The form has the term between these tokens, and could have another there. -/
def Form.Framed (form : Form) (pre post rest : List Token) (term : Term) : Prop :=
  match form with
  | .expression expr => ∃ f, Context f ∧ f term.expr = expr ∧
      Frames (fun part => .expression (f part.expr)) pre post rest
  | .term read => ∃ T, Wraps T ∧ T term = read ∧ Frames (fun part => .term (T part)) pre post rest
  | .others read => ∃ T before op after, Wraps T ∧ Chain.Follow before ∧ op.isBinary = true ∧
      Chain.Follow after ∧ before ++ (op, T term) :: after = read ∧
        Frames (fun part => .others (before ++ (op, T part) :: after)) pre post rest
  | .operand expr => ∃ f, Context f ∧ f term.expr = expr ∧
      Frames (fun part => .operand (f part.expr)) pre post rest
  | .suffixes wrap => ∃ g : Expr → Expr → Expr, (∀ operand, Context (g operand)) ∧
      (fun operand => g operand term.expr) = wrap ∧
        Frames (fun part => .suffixes fun operand => g operand part.expr) pre post rest
  | .primary expr => ∃ f, Context f ∧ f term.expr = expr ∧
      Frames (fun part => .primary (f part.expr)) pre post rest
  | .listed close exprs => ∃ f before after, Context f ∧ before ++ f term.expr :: after = exprs ∧
      Frames (fun part => .listed close (before ++ f part.expr :: after)) pre post rest
  | .arguments exprs => ∃ f before after, Context f ∧ before ++ f term.expr :: after = exprs ∧
      Frames (fun part => .arguments (before ++ f part.expr :: after)) pre post rest

theorem Form.Takes.term_head (h : Takes (.term term) front rest) :
    ∃ token ∈ front.head?, token.kind ≠ .separator .bracketClose := by
  obtain ⟨token, hmem, -, hkind⟩ := h.exists_head
  exact ⟨token, hmem, hkind⟩

/-- What ends in front of the place does not see which term stands there. -/
theorem looksLike_term {front' tail' rest' : List Token} (hpre : pre ≠ [])
    (h : Form.Takes (.term term) front rest) (h' : Form.Takes (.term part) front' rest') :
    LooksLike (pre ++ front ++ tail) (pre ++ front' ++ tail') := by
  obtain ⟨token, hhead, hkind⟩ := h.term_head
  obtain ⟨token', hhead', hkind'⟩ := h'.term_head
  cases pre with
  | nil => exact absurd rfl hpre
  | cons first pre =>
    refine ⟨rfl, ?_⟩
    simp only [List.cons_append, beginsPair_cons]
    cases pre with
    | nil =>
      rw [List.nil_append, List.nil_append, List.head?_append, List.head?_append,
        Option.mem_def.mp hhead, Option.mem_def.mp hhead']
      simp [hkind, hkind']
    | cons second pre => rfl

end Frames

section Parts

open Form (Framed Takes)

variable {first read : Term} {others : List (Operator × Term)} {op : Operator} {wrap : Expr → Expr}
  {expr : Expr} {exprs : List Expr} {close : Separator} {closing comma after : Token}

/-- The form in front of the place takes its tokens whatever term stands there. -/
def Beside (form : Form) (lead pre post rest : List Token) : Prop :=
  ∀ part front, Takes (.term part) front (post ++ rest) →
    form.Takes lead (pre ++ front ++ post ++ rest)

theorem Form.Takes.beside (h : form.Takes lead (pre ++ front ++ post ++ rest)) (hpre : pre ≠ [])
    (hterm : Takes (.term term) front (post ++ rest)) : Beside form lead pre post rest := by
  intro part front' hpart
  refine h.looksLike ?_
  rw [List.append_assoc, List.append_assoc (pre ++ front')]
  exact looksLike_term hpre hterm hpart

theorem framed_first (h : Framed (.term first) pre post (middle ++ rest) term) (hterm : term.Unary)
    (hothers : Takes (.others others) middle rest) :
    Framed (.expression (Chain.mk first others).toExpr) pre (post ++ middle) rest term := by
  obtain ⟨T, ⟨f, hf, hT⟩, rfl, hframes⟩ := h
  obtain ⟨g, hg, hexpr⟩ := Chain.toExpr_first hf hT hothers.shape
  refine ⟨g, hg, (hexpr term hterm).symm, fun part front hpart => ?_⟩
  have htakes := Takes.expression (hframes part front (by simpa using hpart)) hothers
  dsimp only
  rw [← hexpr part hpart.shape]
  simpa using htakes

theorem framed_others (h : Framed (.others others) pre post rest term) (hterm : term.Unary)
    (hfirst : first.Unary) (hbeside : Beside (.term first) lead pre post rest) :
    Framed (.expression (Chain.mk first others).toExpr) (lead ++ pre) post rest term := by
  obtain ⟨T, before, op, after, ⟨f, hf, hT⟩, hbefore, hop, hafter, rfl, hframes⟩ := h
  obtain ⟨g, hg, hexpr⟩ := Chain.toExpr_other hf hT hfirst hop hbefore hafter
  refine ⟨g, hg, (hexpr term hterm).symm, fun part front hpart => ?_⟩
  have htakes := Takes.expression (hbeside part front hpart) (hframes part front hpart)
  dsimp only
  rw [← hexpr part hpart.shape]
  simpa using htakes

theorem framed_unsigned (h : Framed (.operand expr) pre post rest term) :
    Framed (.term ⟨[], expr⟩) pre post rest term := by
  obtain ⟨f, hf, rfl, hframes⟩ := h
  refine ⟨fun part => ⟨[], f part.expr⟩, ⟨f, hf, fun part _ => ⟨List.forall_mem_nil _, rfl⟩⟩, rfl, ?_⟩
  exact fun part front hpart => .unsigned (hframes part front hpart)

theorem framed_sign (h : Framed (.term read) pre post rest term) (hsign : signOf? token = some op) :
    Framed (.term ⟨op :: read.prefixes, read.operand⟩) (token :: pre) post rest term := by
  obtain ⟨T, ⟨f, hf, hT⟩, rfl, hframes⟩ := h
  refine ⟨fun part => ⟨op :: (T part).prefixes, (T part).operand⟩,
    ⟨_, .unary op hf, fun part hpart => ?_⟩, rfl,
    fun part front hpart => .sign hsign (hframes part front hpart)⟩
  obtain ⟨hunary, hexpr⟩ := hT part hpart
  refine ⟨List.forall_mem_cons.mpr ⟨signOf?_isUnary hsign, hunary⟩, ?_⟩
  rw [← hexpr]
  rfl

theorem framed_joined_term (h : Framed (.term read) pre post (middle ++ rest) term)
    (hjoins : Joins token op) (hothers : Takes (.others others) middle rest) :
    Framed (.others ((op, read) :: others)) (token :: pre) (post ++ middle) rest term := by
  obtain ⟨T, hT, rfl, hframes⟩ := h
  refine ⟨T, [], op, others, hT, List.forall_mem_nil _, hjoins.2, hothers.shape, rfl,
    fun part front hpart => ?_⟩
  have htakes := Takes.joined hjoins (hframes part front (by simpa using hpart)) hothers
  simpa using htakes

theorem framed_joined_others (h : Framed (.others others) pre post rest term) (hjoins : Joins token op)
    (hread : read.Unary) (hbeside : Beside (.term read) lead pre post rest) :
    Framed (.others ((op, read) :: others)) (token :: (lead ++ pre)) post rest term := by
  obtain ⟨T, before, op', after, hT, hbefore, hop, hafter, rfl, hframes⟩ := h
  refine ⟨T, (op, read) :: before, op', after, hT, List.forall_mem_cons.mpr ⟨⟨hjoins.2, hread⟩, hbefore⟩,
    hop, hafter, rfl, fun part front hpart => ?_⟩
  have htakes := Takes.joined hjoins (hbeside part front hpart) (hframes part front hpart)
  simpa using htakes

theorem framed_operand (h : Framed (.primary expr) pre post (middle ++ rest) term)
    (hwrap : Takes (.suffixes wrap) middle rest) :
    Framed (.operand (wrap expr)) pre (post ++ middle) rest term := by
  obtain ⟨f, hf, rfl, hframes⟩ := h
  have hcontext : Context wrap := hwrap.shape
  refine ⟨_, hcontext.comp hf, rfl, fun part front hpart => ?_⟩
  have htakes := Takes.operand (hframes part front (by simpa using hpart)) hwrap
  simpa using htakes

theorem framed_suffixes (h : Framed (.suffixes wrap) pre post rest term)
    (hbeside : Beside (.primary expr) lead pre post rest) :
    Framed (.operand (wrap expr)) (lead ++ pre) post rest term := by
  obtain ⟨g, hg, rfl, hframes⟩ := h
  refine ⟨g expr, hg expr, rfl, fun part front hpart => ?_⟩
  have htakes := Takes.operand (hbeside part front hpart) (hframes part front hpart)
  simpa using htakes

/-- Suffixes behind another one. -/
theorem framed_wrap (h : Framed (.suffixes wrap) pre post rest term) (inner : Expr → Expr)
    (hinner : ∀ wrap part front, Takes (.term part) front (post ++ rest) →
      Takes (.suffixes wrap) (pre ++ front ++ post) rest →
        Takes (.suffixes fun expr => wrap (inner expr)) (lead ++ pre ++ front ++ post) rest) :
    Framed (.suffixes fun expr => wrap (inner expr)) (lead ++ pre) post rest term := by
  obtain ⟨g, hg, rfl, hframes⟩ := h
  refine ⟨fun operand => g (inner operand), fun operand => hg (inner operand), rfl,
    fun part front hpart => ?_⟩
  exact hinner _ part front hpart (hframes part front hpart)

theorem framed_call (h : Framed (.arguments exprs) pre post (middle ++ rest) term)
    (htoken : token.kind = .separator .parenOpen) (hwrap : Takes (.suffixes wrap) middle rest) :
    Framed (.suffixes fun expr => wrap (.call expr exprs)) (token :: pre) (post ++ middle) rest
      term := by
  obtain ⟨f, before, after, hf, rfl, hframes⟩ := h
  have hcontext : Context wrap := hwrap.shape
  refine ⟨fun operand part => wrap (.call operand (before ++ f part :: after)),
    fun operand => hcontext.comp (.argument operand before after hf), rfl, fun part front hpart => ?_⟩
  have htakes := Takes.call htoken (hframes part front (by simpa using hpart)) hwrap
  simpa using htakes

theorem framed_index (h : Framed (.expression expr) pre post (closing :: (middle ++ rest)) term)
    (htoken : token.kind = .separator .bracketOpen) (hclosing : closing.kind = .separator .bracketClose)
    (hwrap : Takes (.suffixes wrap) middle rest) :
    Framed (.suffixes fun operand => wrap (.binary .arrayAccess operand expr)) (token :: pre)
      (post ++ closing :: middle) rest term := by
  obtain ⟨f, hf, rfl, hframes⟩ := h
  have hcontext : Context wrap := hwrap.shape
  refine ⟨fun operand part => wrap (.binary .arrayAccess operand (f part)),
    fun operand => hcontext.comp (.right .arrayAccess operand hf), rfl, fun part front hpart => ?_⟩
  have htakes := Takes.index htoken (hframes part front (by simpa using hpart)) hclosing hwrap
  simpa using htakes

theorem framed_cast {name : String} {type : DataType} (h : Framed (.arguments exprs) pre post rest term)
    (htoken : token.kind = .identifier name) (htype : DataType.ofKeyword? name = some type)
    (hafter : after.kind = .separator .parenOpen) :
    Framed (.primary (.cast type exprs)) (token :: after :: pre) post rest term := by
  obtain ⟨f, before, later, hf, rfl, hframes⟩ := h
  refine ⟨_, .castArgument type before later hf, rfl, fun part front hpart => ?_⟩
  exact .cast htoken htype hafter (hframes part front hpart)

theorem framed_paren (h : Framed (.expression expr) pre post (closing :: rest) term)
    (htoken : token.kind = .separator .parenOpen) (hclosing : closing.kind = .separator .parenClose) :
    Framed (.primary expr) (token :: pre) (post ++ [closing]) rest term := by
  obtain ⟨f, hf, rfl, hframes⟩ := h
  refine ⟨f, hf, rfl, fun part front hpart => ?_⟩
  have htakes := Takes.paren htoken (hframes part front (by simpa using hpart)) hclosing
  simpa using htakes

theorem framed_array (h : Framed (.listed .bracketClose exprs) pre post rest term)
    (htoken : token.kind = .separator .bracketOpen) :
    Framed (.primary (.arrayLiteral exprs)) (token :: pre) post rest term := by
  obtain ⟨f, before, after, hf, rfl, hframes⟩ := h
  refine ⟨_, .element before after hf, rfl, fun part front hpart => ?_⟩
  exact .array htoken (hframes part front hpart)

theorem framed_last (h : Framed (.expression expr) pre post (closing :: rest) term)
    (hclosing : closing.kind = .separator close) :
    Framed (.listed close [expr]) pre (post ++ [closing]) rest term := by
  obtain ⟨f, hf, rfl, hframes⟩ := h
  refine ⟨f, [], [], hf, rfl, fun part front hpart => ?_⟩
  have htakes := Takes.last (hframes part front (by simpa using hpart)) hclosing
  simpa using htakes

theorem framed_listed (h : Framed (.expression expr) pre post (comma :: (middle ++ rest)) term)
    (hcomma : comma.kind = .separator .comma) (hexprs : Takes (.listed close exprs) middle rest) :
    Framed (.listed close (expr :: exprs)) pre (post ++ comma :: middle) rest term := by
  obtain ⟨f, hf, rfl, hframes⟩ := h
  refine ⟨f, [], exprs, hf, rfl, fun part front hpart => ?_⟩
  have htakes := Takes.next (hframes part front (by simpa using hpart)) hcomma hexprs
  simpa using htakes

theorem framed_next (h : Framed (.listed close exprs) pre post rest term)
    (hcomma : comma.kind = .separator .comma)
    (hbeside : Beside (.expression expr) lead (comma :: pre) post rest) :
    Framed (.listed close (expr :: exprs)) (lead ++ comma :: pre) post rest term := by
  obtain ⟨f, before, after, hf, rfl, hframes⟩ := h
  refine ⟨f, expr :: before, after, hf, rfl, fun part front hpart => ?_⟩
  have hexpr : Takes (.expression expr) lead (comma :: (pre ++ front ++ post ++ rest)) :=
    hbeside part front hpart
  have htakes := Takes.next hexpr hcomma (hframes part front hpart)
  simpa using htakes

theorem framed_arguments (h : Framed (.listed .parenClose exprs) pre post rest term) :
    Framed (.arguments exprs) pre post rest term := by
  obtain ⟨f, before, after, hf, rfl, hframes⟩ := h
  exact ⟨f, before, after, hf, rfl, fun part front hpart => .arguments (hframes part front hpart)⟩

end Parts

end BuildScript.Expr
