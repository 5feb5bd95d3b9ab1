import Mathlib
import BuildScript.Proofs.Body.Enclosing
import BuildScript.Proofs.Script.Bodies

/-!
Class bodies. The members of a body are read off its statements one after another: a statement that is
no valid member is a fault and is passed over, and what follows it, on the line or on the next ones,
is read as if it were not there. A class is built from just these members, and every fault is told,
as long as a statement at fault is the last of its line; otherwise what follows it there is lost.
-/

namespace BuildScript

open Text (SourceLine)

namespace ClassEntry

/-- The members and faults among the tokens of a logical line, and the lines that are left after it.
A method takes its body from the line, which goes on behind it, or from the lines that follow; a body
that ends on one of those ends its line, too, and is given up if tokens follow it there. In a `strict`
reading no member and no fault follows a statement at fault on its line. -/
inductive Reads (strict : Bool) (number : Nat) :
    List Token → List SourceLine → List ClassEntry → List SourceLine → Prop
  | done {rest} : Reads strict number [] rest [] rest
  | empty {token tokens rest entries left} (hread : Clause.read? token tokens = none)
    (hrest : Reads strict number tokens rest entries left) :
    Reads strict number (token :: tokens) rest entries left
  | field {token tokens statement n type name rest entries left}
    (hread : Clause.read? token tokens = some (.statement statement, n))
    (hfield : Statement.parse statement = .ok (.expression (.declare type name)))
    (hrest : Reads strict number (tokens.drop n) rest entries left) :
    Reads strict number (token :: tokens) rest (⟨number, .ok (.field type name)⟩ :: entries) left
  | inlineMethod {token tokens statement n signature opening inside closing after rest entries left}
    (hread : Clause.read? token tokens = some (.statement statement, n))
    (hmethod : Statement.parse statement = .ok (.declaration (.function signature)))
    (hbody : tokens.drop n = opening :: (inside ++ closing :: after))
    (hopen : opening.isSeparator .braceOpen = true) (hinside : Body.Balanced inside)
    (hclose : closing.isSeparator .braceClose = true)
    (hrest : Reads strict number after rest entries left) :
    Reads strict number (token :: tokens) rest
      (⟨number, .ok (.method signature (Body.cutLine number inside))⟩ :: entries) left
  | method {token tokens statement n signature rest number' behind rest' extent}
    (hread : Clause.read? token tokens = some (.statement statement, n))
    (hmethod : Statement.parse statement = .ok (.declaration (.function signature)))
    (hopens : Body.Opens number (tokens.drop n) rest number' behind rest')
    (hbody : Body.Encloses number' behind rest' extent) (hend : extent.after = []) :
    Reads strict number (token :: tokens) rest [⟨number, .ok (.method signature extent.lines)⟩]
      extent.more
  | trailing {token tokens statement n signature rest number' behind rest' extent first others}
    (hread : Clause.read? token tokens = some (.statement statement, n))
    (hmethod : Statement.parse statement = .ok (.declaration (.function signature)))
    (hopens : Body.Opens number (tokens.drop n) rest number' behind rest')
    (hbody : Body.Encloses number' behind rest' extent) (hend : extent.after = first :: others) :
    Reads strict number (token :: tokens) rest [⟨number, .error (.trailingTokens first.text)⟩]
      extent.more
  | unterminated {token tokens statement n signature rest number' behind rest'}
    (hread : Clause.read? token tokens = some (.statement statement, n))
    (hmethod : Statement.parse statement = .ok (.declaration (.function signature)))
    (hopens : Body.Opens number (tokens.drop n) rest number' behind rest')
    (hbody : Body.Unclosed (behind ++ tokensOf rest')) :
    Reads strict number (token :: tokens) rest
      [⟨number, .error (.unterminatedBody signature.name)⟩] []
  /-- A brace, an `if` or its condition, an `else` or a `return`: no statement at all. -/
  | stray {token tokens clause n rest entries left}
    (hread : Clause.read? token tokens = some (clause, n))
    (hclause : ∀ statement, clause ≠ .statement statement)
    (hrest : Reads strict number (tokens.drop n) rest entries left) :
    Reads strict number (token :: tokens) rest (⟨number, .error .invalidClassMember⟩ :: entries) left
  | unread {token tokens statement n e rest entries left}
    (hread : Clause.read? token tokens = some (.statement statement, n))
    (hparse : Statement.parse statement = .error e)
    (hrest : Reads strict number (tokens.drop n) rest entries left)
    (hlast : strict = true → entries = []) :
    Reads strict number (token :: tokens) rest (⟨number, .error e⟩ :: entries) left
  | misplaced {token tokens statement n parsed rest entries left}
    (hread : Clause.read? token tokens = some (.statement statement, n))
    (hparse : Statement.parse statement = .ok parsed)
    (hfield : ∀ type name, parsed ≠ .expression (.declare type name))
    (hmethod : ∀ signature, parsed ≠ .declaration (.function signature))
    (hrest : Reads strict number (tokens.drop n) rest entries left)
    (hlast : strict = true → entries = []) :
    Reads strict number (token :: tokens) rest (⟨number, .error .invalidClassMember⟩ :: entries) left
  | bodiless {token tokens statement n signature rest entries left}
    (hread : Clause.read? token tokens = some (.statement statement, n))
    (hmethod : Statement.parse statement = .ok (.declaration (.function signature)))
    (hbody : Body.Bodiless (tokens.drop n) rest)
    (hrest : Reads strict number (tokens.drop n) rest entries left)
    (hlast : strict = true → entries = []) :
    Reads strict number (token :: tokens) rest
      (⟨number, .error (.expectedBody signature.name)⟩ :: entries) left

/-- The members and faults of a class body, logical line after logical line. -/
inductive Lays (strict : Bool) : List SourceLine → List ClassEntry → Prop
  | nil : Lays strict [] []
  | line {first rest tokens before entries left others}
    (hline : spliceLine first rest = (.ok tokens, before))
    (hreads : Reads strict first.number tokens before entries left) (hrest : Lays strict left others) :
    Lays strict (first :: rest) (entries ++ others)
  | unlexed {first rest e before others} (hline : spliceLine first rest = (.error e, before))
    (hrest : Lays strict before others) :
    Lays strict (first :: rest) (⟨first.number, .error e⟩ :: others)

variable {strict : Bool} {number : Nat} {tokens : List Token} {lines rest left : List SourceLine}
  {entries : List ClassEntry}

/-- Where nothing is found, no line is taken. -/
theorem Reads.of_nil (h : Reads strict number tokens rest [] left) (strict' : Bool) :
    Reads strict' number tokens rest [] left ∧ left = rest := by
  generalize hentries : ([] : List ClassEntry) = entries at h
  induction h with
  | done => exact ⟨.done, rfl⟩
  | empty hread hrest ih =>
    obtain ⟨hreads, rfl⟩ := ih hentries
    exact ⟨.empty hread hreads, rfl⟩
  | _ => cases hentries

/-- A strict reading is what the class is built from. -/
theorem Reads.ofTokens_eq (h : Reads true number tokens rest entries left) :
    ofTokens number tokens rest = (entries, left) := by
  induction h with
  | done => rw [ofTokens]
  | empty hread hrest ih => rw [ofTokens_empty hread, ih]
  | field hread hfield hrest ih => rw [ofTokens_field hread hfield, ih]
  | inlineMethod hread hmethod hbody hopen hinside hclose hrest ih =>
    rw [ofTokens_method hread hmethod, hbody, Body.capture_inline hopen hinside hclose]
    dsimp only [afterBody]
    rw [List.drop_succ_cons, List.append_cons, List.drop_left' (by simp), ih]
  | method hread hmethod hopens hbody hend | trailing hread hmethod hopens hbody hend =>
    rw [ofTokens_method hread hmethod, Body.capture_encloses hopens hbody, Body.Extent.captured, hend]
    rfl
  | unterminated hread hmethod hopens hbody =>
    rw [ofTokens_method hread hmethod, Body.capture_unclosed hopens hbody]
    rfl
  | stray hread hclause hrest ih => rw [ofTokens_stray hread hclause, ih]
  | unread hread hparse hrest hlast ih =>
    obtain rfl := hlast rfl
    obtain ⟨-, rfl⟩ := hrest.of_nil true
    exact ofTokens_unread hread hparse _
  | misplaced hread hparse hfield hmethod hrest hlast ih =>
    obtain rfl := hlast rfl
    obtain ⟨-, rfl⟩ := hrest.of_nil true
    exact ofTokens_misplaced hread hparse hfield hmethod _
  | bodiless hread hmethod hbody hrest hlast ih =>
    obtain rfl := hlast rfl
    obtain ⟨-, rfl⟩ := hrest.of_nil true
    rw [ofTokens_method hread hmethod, Body.capture_bodiless hbody]
    rfl

/-- A body that opens takes lines from the front. -/
theorem opens_suffix {number' : Nat} {behind : List Token} {rest' : List SourceLine}
    (h : Body.Opens number tokens rest number' behind rest') : rest' <:+ rest := by
  cases h with
  | here => exact List.suffix_refl _
  | next => exact List.suffix_cons _ _

theorem encloses_suffix {behind : List Token} {extent : Body.Extent}
    (h : Body.Encloses number behind rest extent) : extent.more <:+ rest := by
  cases h with
  | sameLine => exact List.suffix_refl _
  | @laterLine middle last inside closing after more =>
    exact ⟨middle ++ [last], by simp⟩

/-- What is left is the end of the lines. -/
theorem Reads.suffix (h : Reads strict number tokens rest entries left) : left <:+ rest := by
  induction h with
  | done => exact List.suffix_refl _
  | method hread hmethod hopens hbody hend =>
    exact (encloses_suffix hbody).trans (opens_suffix hopens)
  | trailing hread hmethod hopens hbody hend =>
    exact (encloses_suffix hbody).trans (opens_suffix hopens)
  | unterminated => exact List.nil_suffix
  | empty _ _ ih | field _ _ _ ih | inlineMethod _ _ _ _ _ _ _ ih | stray _ _ _ ih
  | unread _ _ _ _ ih | misplaced _ _ _ _ _ _ ih | bodiless _ _ _ _ _ ih => exact ih

/-- All that is read on a line has its number. -/
theorem Reads.line_eq (h : Reads strict number tokens rest entries left) :
    ∀ entry ∈ entries, entry.line = number := by
  induction h with
  | done => exact List.forall_mem_nil _
  | method | trailing | unterminated => exact List.forall_mem_singleton.mpr rfl
  | empty _ _ ih => exact ih
  | field _ _ _ ih | inlineMethod _ _ _ _ _ _ _ ih | stray _ _ _ ih | unread _ _ _ _ ih
  | misplaced _ _ _ _ _ _ ih | bodiless _ _ _ _ _ ih => exact List.forall_mem_cons.mpr ⟨rfl, ih⟩

/-- What a class is built from has the number of its line, and takes lines from the front. -/
theorem ofTokens_lines (number : Nat) (tokens : List Token) (rest : List SourceLine) :
    (∀ entry ∈ (ofTokens number tokens rest).1, entry.line = number) ∧
      (ofTokens number tokens rest).2 <:+ rest := by
  have hone (entry : Except SyntaxError Member) :
      ∀ found ∈ [(⟨number, entry⟩ : ClassEntry)], found.line = number :=
    List.forall_mem_singleton.mpr rfl
  fun_induction ofTokens number tokens rest with
  | case1 rest => exact ⟨List.forall_mem_nil _, List.suffix_refl _⟩
  | case2 rest token tokens hread ih => exact ih
  | case3 rest token tokens statement n hread e hparse => exact ⟨hone _, List.suffix_refl _⟩
  | case4 rest token tokens statement n hread type name hparse entries left hrest ih =>
    rw [hrest] at ih
    exact ⟨List.forall_mem_cons.mpr ⟨rfl, ih.1⟩, ih.2⟩
  | case5 rest token tokens statement n hread signature hparse e left hcapture =>
    have htaken := Body.capture_suffix signature.name number (tokens.drop n) rest
    rw [hcapture] at htaken
    exact ⟨hone _, htaken⟩
  | case6 rest token tokens statement n hread signature hparse body left hcapture =>
    have htaken := Body.capture_suffix signature.name number (tokens.drop n) rest
    rw [hcapture] at htaken
    exact ⟨hone _, htaken⟩
  | case7 rest token tokens statement n hread signature hparse body end' between hcapture entries left
      hrest ih =>
    have htaken := Body.capture_suffix signature.name number (tokens.drop n) rest
    rw [hcapture] at htaken
    rw [hrest] at ih
    exact ⟨List.forall_mem_cons.mpr ⟨rfl, ih.1⟩, ih.2.trans htaken⟩
  | case8 rest token tokens statement n hread parsed hfield hmethod hparse =>
    exact ⟨hone _, List.suffix_refl _⟩
  | case9 rest token tokens clause n hclause hread entries left hrest ih =>
    rw [hrest] at ih
    exact ⟨List.forall_mem_cons.mpr ⟨rfl, ih.1⟩, ih.2⟩

/-- The entries of a class body that a logical line makes, and the lines after it. -/
def readLine (line : SourceLine) (rest : List SourceLine) : List ClassEntry × List SourceLine :=
  match spliceLine line rest with
  | (.error e, rest) => ([⟨line.number, .error e⟩], rest)
  | (.ok tokens, rest) => ofTokens line.number tokens rest

theorem readLine_lexed {first : SourceLine} (hline : spliceLine first rest = (.ok tokens, left)) :
    readLine first rest = ofTokens first.number tokens left := by
  rw [readLine, hline]

theorem readLine_unlexed {first : SourceLine} {e : SyntaxError}
    (hline : spliceLine first rest = (.error e, left)) :
    readLine first rest = ([⟨first.number, .error e⟩], left) := by
  rw [readLine, hline]

/-- What a logical line makes has its number, and it takes lines from the front. -/
theorem readLine_lines (first : SourceLine) (rest : List SourceLine) :
    (∀ entry ∈ (readLine first rest).1, entry.line = first.number) ∧
      (readLine first rest).2 <:+ rest := by
  have hspliced := spliceLine_suffix first rest
  cases hline : spliceLine first rest with
  | mk result left =>
    rw [hline] at hspliced
    cases result with
    | error e =>
      rw [readLine_unlexed hline]
      exact ⟨List.forall_mem_singleton.mpr rfl, hspliced⟩
    | ok tokens =>
      rw [readLine_lexed hline]
      obtain ⟨hlines, hleft⟩ := ofTokens_lines first.number tokens left
      exact ⟨hlines, hleft.trans hspliced⟩

theorem ofLinesWithin_cons (fuel : Nat) (line : SourceLine) (rest : List SourceLine) :
    ofLinesWithin (fuel + 1) (line :: rest) =
      (readLine line rest).1 ++ ofLinesWithin fuel (readLine line rest).2 := by
  conv_lhs => unfold ofLinesWithin
  unfold readLine
  obtain ⟨e | tokens, left⟩ := spliceLine line rest <;> rfl

/-- Any fuel does that is enough for the lines. -/
theorem ofLinesWithin_enough {fuel fuel' : Nat} (h : lines.length ≤ fuel)
    (h' : lines.length ≤ fuel') : ofLinesWithin fuel lines = ofLinesWithin fuel' lines := by
  induction fuel generalizing fuel' lines with
  | zero =>
    obtain rfl := List.length_eq_zero_iff.mp (Nat.le_zero.mp h)
    cases fuel' <;> rfl
  | succ fuel ih =>
    cases lines with
    | nil => cases fuel' <;> rfl
    | cons line rest =>
      obtain ⟨fuel', rfl⟩ : ∃ more, fuel' = more + 1 :=
        Nat.exists_eq_add_of_le' (Nat.le_trans (Nat.succ_le_succ (Nat.zero_le _)) h')
      have htaken := (readLine_lines line rest).2.length_le
      rw [ofLinesWithin_cons, ofLinesWithin_cons,
        ih (Nat.le_trans htaken (Nat.le_of_succ_le_succ h))
          (Nat.le_trans htaken (Nat.le_of_succ_le_succ h'))]

theorem ofLines_cons (line : SourceLine) (rest : List SourceLine) :
    ofLines (line :: rest) = (readLine line rest).1 ++ ofLines (readLine line rest).2 := by
  rw [ofLines, List.length_cons, ofLinesWithin_cons, ofLines]
  congr 1
  exact ofLinesWithin_enough (readLine_lines line rest).2.length_le le_rfl

/-- Every entry is made by a logical line. -/
theorem ofLines_mem {entry : ClassEntry} (h : entry ∈ ofLines lines) :
    ∃ first rest, first :: rest <:+ lines ∧ entry ∈ (readLine first rest).1 := by
  induction hlength : lines.length using Nat.strongRecOn generalizing lines with
  | ind length ih =>
    cases lines with
    | nil => cases h
    | cons first rest =>
      rw [ofLines_cons] at h
      rcases List.mem_append.mp h with h | h
      · exact ⟨first, rest, List.suffix_refl _, h⟩
      · have hsuffix := (readLine_lines first rest).2
        have hless : (readLine first rest).2.length < length := by
          rw [← hlength, List.length_cons]
          exact Nat.lt_succ_of_le hsuffix.length_le
        obtain ⟨first', rest', hlater, hentry⟩ := ih _ hless h rfl
        exact ⟨first', rest', hlater.trans (hsuffix.trans (List.suffix_cons first rest)), hentry⟩

/-- An entry has the number of the line that its logical line begins with. -/
theorem ofLines_line_mem (lines : List SourceLine) :
    ∀ entry ∈ ofLines lines, ∃ line ∈ lines, entry.line = line.number := by
  intro entry hentry
  obtain ⟨first, rest, hsuffix, hread⟩ := ofLines_mem hentry
  exact ⟨first, hsuffix.subset List.mem_cons_self, (readLine_lines first rest).1 entry hread⟩

/-- Where the class is built from all that is read, the reading is strict. -/
theorem Reads.strict_of_eq (h : Reads false number tokens rest entries left)
    (hentries : (ofTokens number tokens rest).1 = entries) :
    Reads true number tokens rest entries left := by
  induction h with
  | done => exact .done
  | empty hread hrest ih =>
    rw [ofTokens_empty hread] at hentries
    exact .empty hread (ih hentries)
  | field hread hfield hrest ih =>
    rw [ofTokens_field hread hfield] at hentries
    exact .field hread hfield (ih (List.cons.inj hentries).2)
  | inlineMethod hread hmethod hbody hopen hinside hclose hrest ih =>
    rw [ofTokens_method hread hmethod, hbody, Body.capture_inline hopen hinside hclose] at hentries
    dsimp only [afterBody] at hentries
    rw [List.drop_succ_cons, List.append_cons, List.drop_left' (by simp)] at hentries
    exact .inlineMethod hread hmethod hbody hopen hinside hclose (ih (List.cons.inj hentries).2)
  | method hread hmethod hopens hbody hend => exact .method hread hmethod hopens hbody hend
  | trailing hread hmethod hopens hbody hend => exact .trailing hread hmethod hopens hbody hend
  | unterminated hread hmethod hopens hbody => exact .unterminated hread hmethod hopens hbody
  | stray hread hclause hrest ih =>
    rw [ofTokens_stray hread hclause] at hentries
    exact .stray hread hclause (ih (List.cons.inj hentries).2)
  | unread hread hparse hrest hlast ih =>
    rw [ofTokens_unread hread hparse] at hentries
    obtain rfl := (List.cons.inj hentries).2
    exact .unread hread hparse (hrest.of_nil true).1 fun _ => rfl
  | misplaced hread hparse hfield hmethod hrest hlast ih =>
    rw [ofTokens_misplaced hread hparse hfield hmethod] at hentries
    obtain rfl := (List.cons.inj hentries).2
    exact .misplaced hread hparse hfield hmethod (hrest.of_nil true).1 fun _ => rfl
  | bodiless hread hmethod hbody hrest hlast ih =>
    rw [ofTokens_method hread hmethod, Body.capture_bodiless hbody] at hentries
    obtain rfl := (List.cons.inj hentries).2
    exact .bodiless hread hmethod hbody (hrest.of_nil true).1 fun _ => rfl

/-- Every line can be read if the lines after it lex. -/
theorem Reads.total (number : Nat) (tokens : List Token)
    (hlexes : ∀ line ∈ rest, ∃ lexed, Lexed.ofLine line.text = .ok lexed) :
    ∃ entries left, Reads false number tokens rest entries left := by
  have hloose (entries : List ClassEntry) : false = true → entries = [] := Bool.false_ne_true.elim
  induction hlength : tokens.length using Nat.strongRecOn generalizing tokens with
  | ind length ih =>
    have hbehind {token : Token} {tokens : List Token} (n : Nat)
        (hlength : (token :: tokens).length = length) :
        ∃ entries left, Reads false number (tokens.drop n) rest entries left := by
      refine ih (tokens.drop n).length ?_ (tokens.drop n) rfl
      rw [← hlength, List.length_drop]
      exact Nat.lt_succ_of_le (Nat.sub_le _ _)
    cases front tokens with
    | done => exact ⟨[], rest, .done⟩
    | empty hread =>
      obtain ⟨entries, left, hreads⟩ := hbehind 0 hlength
      exact ⟨entries, left, .empty hread hreads⟩
    | @field _ _ _ n _ _ hread hfield =>
      obtain ⟨entries, left, hreads⟩ := hbehind n hlength
      exact ⟨_, left, .field hread hfield hreads⟩
    | @unread _ _ _ n _ hread hparse =>
      obtain ⟨entries, left, hreads⟩ := hbehind n hlength
      exact ⟨_, left, .unread hread hparse hreads (hloose _)⟩
    | @misplaced _ _ _ n _ hread hparse hfield hmethod =>
      obtain ⟨entries, left, hreads⟩ := hbehind n hlength
      exact ⟨_, left, .misplaced hread hparse hfield hmethod hreads (hloose _)⟩
    | @stray _ _ _ n hread hclause =>
      obtain ⟨entries, left, hreads⟩ := hbehind n hlength
      exact ⟨_, left, .stray hread hclause hreads⟩
    | @method token tokens _ n _ hread hmethod =>
      rcases Body.bodiless_or_opens number (tokens.drop n) hlexes with hbody |
        ⟨opening, inside, closing, after, hbody, hopen, hinside, hclose⟩ |
        ⟨number', behind, rest', hopens⟩
      · obtain ⟨entries, left, hreads⟩ := hbehind n hlength
        exact ⟨_, left, .bodiless hread hmethod hbody hreads (hloose _)⟩
      · have hafter : after.length < length := by
          have hcut := congrArg List.length hbody
          simp only [List.length_drop, List.length_cons, List.length_append] at hcut hlength
          omega
        obtain ⟨entries, left, hreads⟩ := ih after.length hafter after rfl
        exact ⟨_, left, .inlineMethod hread hmethod hbody hopen hinside hclose hreads⟩
      · rcases Body.encloses_or_unclosed number' behind rest' with ⟨extent, hbody⟩ | hbody
        · cases hend : extent.after with
          | nil => exact ⟨_, _, .method hread hmethod hopens hbody hend⟩
          | cons first others => exact ⟨_, _, .trailing hread hmethod hopens hbody hend⟩
        · exact ⟨_, _, .unterminated hread hmethod hopens hbody⟩

/-- A strict reading of a body is what the class is built from. -/
theorem Lays.ofLines_eq (h : Lays true lines entries) : ofLines lines = entries := by
  induction h with
  | nil => rfl
  | line hline hreads hrest ih =>
    rw [ofLines_cons, readLine_lexed hline, hreads.ofTokens_eq]
    exact congrArg (_ ++ ·) ih
  | unlexed hline hrest ih =>
    rw [ofLines_cons, readLine_unlexed hline]
    exact congrArg (_ :: ·) ih

/-- Every step takes a line, so the lines are fuel enough. -/
theorem Lays.ofLinesWithin_eq (h : Lays true lines entries) {fuel : Nat}
    (hfuel : lines.length ≤ fuel) : ofLinesWithin fuel lines = entries :=
  (ofLinesWithin_enough hfuel le_rfl).trans h.ofLines_eq

/-- A body is laid out in one way or another if its lines lex. -/
theorem Lays.total (lines : List SourceLine)
    (hlexes : ∀ line ∈ lines, ∃ lexed, Lexed.ofLine line.text = .ok lexed) :
    ∃ entries, Lays false lines entries := by
  match lines with
  | [] => exact ⟨[], .nil⟩
  | first :: rest =>
    have hsuffix := spliceLine_suffix first rest
    cases hline : spliceLine first rest with
    | mk result before =>
      rw [hline] at hsuffix
      have hbefore (line : SourceLine) (hmem : line ∈ before) :
          ∃ lexed, Lexed.ofLine line.text = .ok lexed :=
        hlexes line (List.mem_cons_of_mem _ (hsuffix.subset hmem))
      have htaken := hsuffix.length_le
      cases result with
      | error e =>
        obtain ⟨others, hothers⟩ := Lays.total before hbefore
        exact ⟨_, .unlexed hline hothers⟩
      | ok tokens =>
        obtain ⟨entries, left, hreads⟩ := Reads.total first.number tokens hbefore
        have hleft := hreads.suffix.length_le
        obtain ⟨others, hothers⟩ := Lays.total left fun line hmem =>
          hbefore line (hreads.suffix.subset hmem)
        exact ⟨_, .line hline hreads hothers⟩
termination_by lines.length
decreasing_by
  · exact Nat.lt_succ_of_le htaken
  · exact Nat.lt_succ_of_le (Nat.le_trans hleft htaken)

/-- The lines are numbered in order. -/
def Numbered (lines : List SourceLine) : Prop := lines.Pairwise (·.number < ·.number)

/-- What is found among lines has the number of one of them. -/
theorem Lays.line_mem (h : Lays strict lines entries) :
    ∀ entry ∈ entries, ∃ line ∈ lines, entry.line = line.number := by
  induction h with
  | nil => exact List.forall_mem_nil _
  | @line first rest tokens before entries left others hline hreads hrest ih =>
    have hsuffix := spliceLine_suffix first rest
    rw [hline] at hsuffix
    intro entry hentry
    rcases List.mem_append.mp hentry with hentry | hentry
    · exact ⟨first, List.mem_cons_self, hreads.line_eq entry hentry⟩
    · obtain ⟨found, hfound, heq⟩ := ih entry hentry
      exact ⟨found, List.mem_cons_of_mem _ (hsuffix.subset (hreads.suffix.subset hfound)), heq⟩
  | @unlexed first rest e before others hline hrest ih =>
    have hsuffix := spliceLine_suffix first rest
    rw [hline] at hsuffix
    intro entry hentry
    rcases List.mem_cons.mp hentry with rfl | hentry
    · exact ⟨first, List.mem_cons_self, rfl⟩
    · obtain ⟨found, hfound, heq⟩ := ih entry hentry
      exact ⟨found, List.mem_cons_of_mem _ (hsuffix.subset hfound), heq⟩

/-- Entries of one line are told from those of the lines after it. -/
theorem append_split {number : Nat} {found others found' others' : List ClassEntry}
    (heq : found ++ others = found' ++ others') (hfound : ∀ entry ∈ found, entry.line = number)
    (hothers : ∀ entry ∈ others, number < entry.line)
    (hfound' : ∀ entry ∈ found', entry.line = number)
    (hothers' : ∀ entry ∈ others', number < entry.line) : found = found' ∧ others = others' := by
  have hkeep {entries after : List ClassEntry} (h : ∀ entry ∈ entries, entry.line = number)
      (hafter : ∀ entry ∈ after, number < entry.line) :
      (entries ++ after).filter (·.line == number) = entries := by
    rw [List.filter_append, List.filter_eq_self.mpr fun entry hentry => by simp [h entry hentry],
      List.filter_eq_nil_iff.mpr fun entry hentry => by
        simpa using Nat.ne_of_gt (hafter entry hentry), List.append_nil]
  have hsame : found = found' := by
    rw [← hkeep hfound hothers, heq, hkeep hfound' hothers']
  subst hsame
  exact ⟨rfl, List.append_cancel_left heq⟩

/-- Where the class is built from all that is read, the reading is strict. -/
theorem Lays.strict_of_eq (h : Lays false lines entries) (hnumbered : Numbered lines) {fuel : Nat}
    (hfuel : lines.length ≤ fuel) (hentries : ofLinesWithin fuel lines = entries) :
    Lays true lines entries := by
  replace hentries : ofLines lines = entries := (ofLinesWithin_enough le_rfl hfuel).trans hentries
  clear hfuel
  induction h with
  | nil => exact .nil
  | @line first rest tokens before entries left others hline hreads hrest ih =>
    obtain ⟨hafter, hpairs⟩ := List.pairwise_cons.mp hnumbered
    have hsuffix := spliceLine_suffix first rest
    rw [hline] at hsuffix
    have hlater {lines : List SourceLine} {entries : List ClassEntry} (htaken : lines <:+ before)
        (hmem : ∀ entry ∈ entries, ∃ line ∈ lines, entry.line = line.number) :
        ∀ entry ∈ entries, first.number < entry.line := by
      intro entry hentry
      obtain ⟨line, hline, heq⟩ := hmem entry hentry
      rw [heq]
      exact hafter line (hsuffix.subset (htaken.subset hline))
    obtain ⟨hlines, htaken⟩ := ofTokens_lines first.number tokens before
    rw [ofLines_cons, readLine_lexed hline] at hentries
    obtain ⟨hfound, hothers⟩ := append_split hentries hlines
      (hlater htaken (ofLines_line_mem _)) hreads.line_eq (hlater hreads.suffix hrest.line_mem)
    have hstrict := hreads.strict_of_eq hfound
    rw [hstrict.ofTokens_eq] at hothers
    exact .line hline hstrict (ih (hpairs.sublist (hreads.suffix.trans hsuffix).sublist) hothers)
  | @unlexed first rest e before others hline hrest ih =>
    have hsuffix := spliceLine_suffix first rest
    rw [hline] at hsuffix
    rw [ofLines_cons, readLine_unlexed hline] at hentries
    exact .unlexed hline (ih ((List.pairwise_cons.mp hnumbered).2.sublist hsuffix.sublist)
      (List.cons.inj hentries).2)

end ClassEntry

end BuildScript
