import Mathlib
import BuildScript.Proofs.Body.Extent
import BuildScript.Proofs.Run.Scripts

/-!
Bodies in a script. A header at the end of a line takes the lines up to the brace that matches, and
the script goes on behind them: nothing of the body is an item of it. What is wrong with a line of the
body is in the body and is told when a run of it comes there.
-/

namespace BuildScript

open Text (SourceLine)

namespace Item

variable {number : Nat} {tokens : List Token} {items : List Item} {header : Header}

/-- The tokens of a line are the given items and then a header with nothing behind it. -/
inductive HeaderLast (number : Nat) : List Token → List Item → Header → Prop
  | header {token tokens clause n header} (hread : Clause.read? token tokens = some (clause, n))
    (hheader : ofClause clause = .inr header) (hend : tokens.drop n = []) :
    HeaderLast number (token :: tokens) [] header
  | empty {token tokens items header} (hread : Clause.read? token tokens = none)
    (hrest : HeaderLast number tokens items header) :
    HeaderLast number (token :: tokens) items header
  | item {token tokens clause n item items header}
    (hread : Clause.read? token tokens = some (clause, n)) (hitem : ofClause clause = .inl item)
    (hrest : HeaderLast number (tokens.drop n) items header) :
    HeaderLast number (token :: tokens) (item :: items) header
  /-- Another header, whose body is on the line too. -/
  | declared {token tokens clause n other body end' items header}
    (hread : Clause.read? token tokens = some (clause, n)) (hother : ofClause clause = .inr other)
    (hbody : ∀ rest, Body.capture other.name number (tokens.drop n) rest =
      (.ok ⟨body, some end'⟩, rest))
    (hrest : HeaderLast number ((tokens.drop n).drop end') items header) :
    HeaderLast number (token :: tokens) (.declaration other (.ok body) :: items) header

/-- Only the last header takes lines. -/
theorem HeaderLast.ofTokens_eq (h : HeaderLast number tokens items header) (rest : List SourceLine) :
    ofTokens number tokens rest =
      (items ++ (afterBody number header [] (Body.capture header.name number [] rest).1
          (Body.capture header.name number [] rest).2).1,
        (afterBody number header [] (Body.capture header.name number [] rest).1
          (Body.capture header.name number [] rest).2).2) := by
  induction h with
  | header hread hheader hend => rw [ofTokens_declaration hread hheader, hend, List.nil_append]
  | empty hread hrest ih => rw [ofTokens_empty hread, ih]
  | item hread hitem hrest ih =>
    rw [ofTokens_item hread hitem, ih]
    rfl
  | declared hread hother hbody hrest ih =>
    rw [ofTokens_declaration hread hother, hbody]
    dsimp only [afterBody]
    rw [ih]
    rfl

theorem afterBody_extent (number : Nat) (header : Header) (extent : Body.Extent) :
    afterBody number header [] extent.captured.1 extent.captured.2 =
      ([.declaration header extent.body], extent.more) := by
  obtain ⟨first, middle, last, inside, after, more⟩ := extent
  cases after <;> rfl

end Item

namespace ClassEntry

/-! What a class body holds from a token on, by the statement that begins there. -/

section

variable {number n : Nat} {token : Token} {tokens statement : List Token}

theorem ofTokens_empty (hread : Clause.read? token tokens = none) (rest : List SourceLine) :
    ofTokens number (token :: tokens) rest = ofTokens number tokens rest := by
  rw [ofTokens, hread]

theorem ofTokens_unread {e : SyntaxError}
    (hread : Clause.read? token tokens = some (.statement statement, n))
    (hparse : Statement.parse statement = .error e) (rest : List SourceLine) :
    ofTokens number (token :: tokens) rest = ([⟨number, .error e⟩], rest) := by
  rw [ofTokens, hread]
  dsimp only
  rw [hparse]

theorem ofTokens_field {type : DataType} {name : String}
    (hread : Clause.read? token tokens = some (.statement statement, n))
    (hfield : Statement.parse statement = .ok (.expression (.declare type name)))
    (rest : List SourceLine) : ofTokens number (token :: tokens) rest =
      (⟨number, .ok (.field type name)⟩ :: (ofTokens number (tokens.drop n) rest).1,
        (ofTokens number (tokens.drop n) rest).2) := by
  rw [ofTokens, hread]
  dsimp only
  rw [hfield]

/-- A statement that declares neither a field nor a method. -/
theorem ofTokens_misplaced {parsed : Statement}
    (hread : Clause.read? token tokens = some (.statement statement, n))
    (hparse : Statement.parse statement = .ok parsed)
    (hfield : ∀ type name, parsed ≠ .expression (.declare type name))
    (hmethod : ∀ signature, parsed ≠ .declaration (.function signature)) (rest : List SourceLine) :
    ofTokens number (token :: tokens) rest = ([⟨number, .error .invalidClassMember⟩], rest) := by
  rw [ofTokens, hread]
  dsimp only
  rw [hparse]
  cases parsed with
  | expression expr =>
    cases expr with
    | declare type name => exact absurd rfl (hfield type name)
    | _ => rfl
  | declaration header =>
    cases header with
    | function signature => exact absurd rfl (hmethod signature)
    | _ => rfl

/-- A brace, an `if` or its condition, an `else` or a `return`. -/
theorem ofTokens_stray {clause : Clause} (hread : Clause.read? token tokens = some (clause, n))
    (hclause : ∀ statement, clause ≠ .statement statement) (rest : List SourceLine) :
    ofTokens number (token :: tokens) rest =
      (⟨number, .error .invalidClassMember⟩ :: (ofTokens number (tokens.drop n) rest).1,
        (ofTokens number (tokens.drop n) rest).2) := by
  rw [ofTokens, hread]
  cases clause with
  | statement statement => exact absurd rfl (hclause statement)
  | _ => rfl

/-- The entries from a method on whose body was captured. -/
def afterBody (number : Nat) (signature : Signature) (tokens : List Token) :
    Except SyntaxError Body.Captured → List SourceLine → List ClassEntry × List SourceLine
  | .error e, rest => ([⟨number, .error e⟩], rest)
  | .ok ⟨body, none⟩, rest => ([⟨number, .ok (.method signature body)⟩], rest)
  | .ok ⟨body, some end'⟩, rest =>
    let (entries, rest) := ofTokens number (tokens.drop end') rest
    (⟨number, .ok (.method signature body)⟩ :: entries, rest)

theorem ofTokens_method {signature : Signature}
    (hread : Clause.read? token tokens = some (.statement statement, n))
    (hmethod : Statement.parse statement = .ok (.declaration (.function signature)))
    (rest : List SourceLine) : ofTokens number (token :: tokens) rest =
      afterBody number signature (tokens.drop n)
        (Body.capture signature.name number (tokens.drop n) rest).1
        (Body.capture signature.name number (tokens.drop n) rest).2 := by
  rw [ofTokens, hread]
  dsimp only
  rw [hmethod]
  dsimp only
  obtain ⟨captured, rest⟩ := Body.capture signature.name number (tokens.drop n) rest
  rcases captured with e | ⟨body, _ | end'⟩ <;> rfl

end

/-- What the tokens of a line of a class body begin with. -/
inductive Front : List Token → Prop
  | done : Front []
  | empty {token tokens} (hread : Clause.read? token tokens = none) : Front (token :: tokens)
  | field {token tokens statement n type name}
    (hread : Clause.read? token tokens = some (.statement statement, n))
    (hfield : Statement.parse statement = .ok (.expression (.declare type name))) :
    Front (token :: tokens)
  | method {token tokens statement n signature}
    (hread : Clause.read? token tokens = some (.statement statement, n))
    (hmethod : Statement.parse statement = .ok (.declaration (.function signature))) :
    Front (token :: tokens)
  | unread {token tokens statement n e}
    (hread : Clause.read? token tokens = some (.statement statement, n))
    (hparse : Statement.parse statement = .error e) : Front (token :: tokens)
  | misplaced {token tokens statement n parsed}
    (hread : Clause.read? token tokens = some (.statement statement, n))
    (hparse : Statement.parse statement = .ok parsed)
    (hfield : ∀ type name, parsed ≠ .expression (.declare type name))
    (hmethod : ∀ signature, parsed ≠ .declaration (.function signature)) : Front (token :: tokens)
  | stray {token tokens clause n} (hread : Clause.read? token tokens = some (clause, n))
    (hclause : ∀ statement, clause ≠ .statement statement) : Front (token :: tokens)

theorem front (tokens : List Token) : Front tokens := by
  cases tokens with
  | nil => exact .done
  | cons token tokens =>
    cases hread : Clause.read? token tokens with
    | none => exact .empty hread
    | some taken =>
      obtain ⟨clause, n⟩ := taken
      cases clause with
      | statement statement =>
        cases hparse : Statement.parse statement with
        | error e => exact .unread hread hparse
        | ok parsed =>
          by_cases hfield : ∃ type name, parsed = .expression (.declare type name)
          · obtain ⟨type, name, rfl⟩ := hfield
            exact .field hread hparse
          by_cases hmethod : ∃ signature, parsed = .declaration (.function signature)
          · obtain ⟨signature, rfl⟩ := hmethod
            exact .method hread hparse
          exact .misplaced hread hparse (fun type name heq => hfield ⟨type, name, heq⟩)
            fun signature heq => hmethod ⟨signature, heq⟩
      | _ => exact .stray hread fun _ => Clause.noConfusion

variable {number : Nat} {tokens : List Token} {entries : List ClassEntry} {signature : Signature}

/-- The tokens of a line of a class body are the given entries and then the header of a method with
nothing behind it. -/
inductive MethodLast (number : Nat) : List Token → List ClassEntry → Signature → Prop
  | method {token tokens statement n signature}
    (hread : Clause.read? token tokens = some (.statement statement, n))
    (hmethod : Statement.parse statement = .ok (.declaration (.function signature)))
    (hend : tokens.drop n = []) : MethodLast number (token :: tokens) [] signature
  | empty {token tokens entries signature} (hread : Clause.read? token tokens = none)
    (hrest : MethodLast number tokens entries signature) :
    MethodLast number (token :: tokens) entries signature
  | field {token tokens statement n type name entries signature}
    (hread : Clause.read? token tokens = some (.statement statement, n))
    (hfield : Statement.parse statement = .ok (.expression (.declare type name)))
    (hrest : MethodLast number (tokens.drop n) entries signature) :
    MethodLast number (token :: tokens) (⟨number, .ok (.field type name)⟩ :: entries) signature
  /-- Another method, whose body is on the line too. -/
  | declared {token tokens statement n other body end' entries signature}
    (hread : Clause.read? token tokens = some (.statement statement, n))
    (hother : Statement.parse statement = .ok (.declaration (.function other)))
    (hbody : ∀ rest, Body.capture other.name number (tokens.drop n) rest =
      (.ok ⟨body, some end'⟩, rest))
    (hrest : MethodLast number ((tokens.drop n).drop end') entries signature) :
    MethodLast number (token :: tokens) (⟨number, .ok (.method other body)⟩ :: entries) signature
  | invalid {token tokens clause n entries signature}
    (hread : Clause.read? token tokens = some (clause, n))
    (hclause : ∀ statement, clause ≠ .statement statement)
    (hrest : MethodLast number (tokens.drop n) entries signature) :
    MethodLast number (token :: tokens) (⟨number, .error .invalidClassMember⟩ :: entries) signature

/-- A class body goes on behind the body of a method at the end of a line. -/
theorem MethodLast.ofTokens_eq (h : MethodLast number tokens entries signature)
    {rest : List SourceLine} {extent : Body.Extent}
    (hcapture : Body.capture signature.name number [] rest = extent.captured) :
    ofTokens number tokens rest =
      (entries ++ [⟨number, extent.body.map (Member.method signature)⟩], extent.more) := by
  induction h with
  | method hread hmethod hend =>
    rw [ofTokens_method hread hmethod, hend, hcapture]
    obtain ⟨first, middle, last, inside, after, more⟩ := extent
    cases after <;> rfl
  | empty hread hrest ih => rw [ofTokens_empty hread, ih hcapture]
  | field hread hfield hrest ih =>
    rw [ofTokens_field hread hfield, ih hcapture]
    rfl
  | declared hread hother hbody hrest ih =>
    rw [ofTokens_method hread hother, hbody]
    dsimp only [afterBody]
    rw [ih hcapture]
    rfl
  | invalid hread hclause hrest ih =>
    rw [ofTokens_stray hread hclause, ih hcapture]
    rfl

end ClassEntry

namespace Script

variable {line opening : SourceLine} {before rest : List SourceLine} {tokens : List Token}
  {items : List Item} {header : Header} {extent : Body.Extent}

theorem ofLines_nil : ofLines [] = [] := by
  rw [ofLines]

/-- The script goes on behind the body. -/
theorem ofLines_matched (hline : spliceLine line before = (.ok tokens, opening :: rest))
    (hheader : Item.HeaderLast line.number tokens items header)
    (hopens : Body.opensWithBrace opening = true)
    (hlexes : ∃ lexed, Lexed.ofLine opening.text = .ok lexed)
    (hmatch : Body.Matches opening rest extent) :
    ofLines (line :: before) =
      ⟨line.number, .ok (items ++ [.declaration header extent.body])⟩ :: ofLines extent.more := by
  rw [ofLines_cons, readLine, hline]
  dsimp only [lineOf]
  rw [hheader.ofTokens_eq, Body.capture_matched hopens hlexes hmatch, Item.afterBody_extent]

/-- A reading of the lines comes to a line that does not lex, if need be over lines that go on: the
logical line breaks off there. -/
structure BreaksOff (lines before marked : List SourceLine) (bad : SourceLine) (e : SyntaxError)
    (after : List SourceLine) : Prop where
  whole : lines = before ++ (marked ++ bad :: after)
  goesOn : ∀ line ∈ marked, line.GoesOn
  error : Lexed.ofLine bad.text = .error e
  begins : Begins (marked ++ bad :: after) lines

variable {lines marked after : List SourceLine} {bad : SourceLine} {e : SyntaxError}

theorem BreaksOff.ofLines_eq (h : BreaksOff lines before marked bad e after) :
    ofLines lines =
      ofLines before ++ ⟨(marked.head?.getD bad).number, .error e⟩ :: ofLines after := by
  obtain ⟨first, tail, hfirst⟩ := List.exists_cons_of_ne_nil
    (List.append_ne_nil_of_right_ne_nil marked (List.cons_ne_nil bad after))
  have hnumber : first = marked.head?.getD bad := by
    cases marked with
    | nil => exact (List.cons.inj hfirst).1.symm
    | cons line marked => exact (List.cons.inj hfirst).1.symm
  have hbad : ¬bad.GoesOn := by
    rintro ⟨lexed, hlexed, -⟩
    cases hlexed.symm.trans h.error
  have hbegins := h.begins
  rw [h.whole, hfirst] at hbegins
  rw [h.whole, hfirst, (ofLines_before hbegins).1, ofLines_cons, readLine,
    spliceLine_run hfirst.symm h.goesOn hbad, h.error, ← hnumber]
  rfl

/-- A run of the lines reports the error when it comes there, and goes on with the lines after. -/
theorem BreaksOff.runLines_eq (h : BreaksOff lines before marked bad e after) {ctx : Context}
    {inFunction : Bool} {m reached : Machine}
    (hreached : Run.reached? before inFunction ctx m = some reached) :
    Run.runLines lines inFunction ctx m = Run.concluded m.env.scopes.depth
      (Run.runScript m.env.scopes.depth inFunction .error (ofLines after) ctx
        ({ reached with line := (marked.head?.getD bad).number }.report (.parse e))) :=
  Run.runLines_reached h.ofLines_eq hreached rfl rfl

/-- A body whose first line lexes ends at the brace that matches its own: that is where it is
captured, and the script, or the class body, goes on behind it. One whose first line does not lex is
captured otherwise, if the brace that matches is the last token of its line. Every line that does not
lex is in the body, and a run that comes to it reports what is wrong and goes on. -/
theorem body_ends_at_match (hopens : Body.opensWithBrace opening = true)
    (hmatch : Body.Matches opening rest extent) :
    ((∃ lexed, Lexed.ofLine opening.text = .ok lexed) →
      (∀ name number, Body.capture name number [] (opening :: rest) = extent.captured) ∧
        ∀ {line before tokens}, spliceLine line before = (.ok tokens, opening :: rest) →
          (∀ {items header}, Item.HeaderLast line.number tokens items header →
            ofLines (line :: before) =
              ⟨line.number, .ok (items ++ [.declaration header extent.body])⟩ ::
                ofLines extent.more) ∧
            ∀ {entries signature}, ClassEntry.MethodLast line.number tokens entries signature →
              ∀ fuel, ClassEntry.ofLinesWithin (fuel + 1) (line :: before) =
                entries ++ ⟨line.number, extent.body.map (Member.method signature)⟩ ::
                  ClassEntry.ofLinesWithin fuel extent.more) ∧
      ((∃ e, Lexed.ofLine opening.text = .error e) → extent.after = [] →
        ∀ name number, Body.capture name number [] (opening :: rest) ≠ extent.captured) ∧
      (extent.after = [] → extent.body = .ok extent.lines) ∧
      (∀ bad ∈ opening :: extent.middle, ∀ e, Lexed.ofLine bad.text = .error e →
        bad ∈ extent.lines) ∧
      ∀ {before' marked bad e after'}, BreaksOff extent.lines before' marked bad e after' →
        ∀ {ctx inFunction m reached}, Run.reached? before' inFunction ctx m = some reached →
          Run.runLines extent.lines inFunction ctx m = Run.concluded m.env.scopes.depth
            (Run.runScript m.env.scopes.depth inFunction .error (ofLines after') ctx
              ({ reached with line := (marked.head?.getD bad).number }.report (.parse e))) := by
  refine ⟨fun hlexes => ?_, fun ⟨e, herror⟩ hafter name number => ?_, fun hafter => ?_, ?_,
    fun hbreaks _ _ _ _ hreached => hbreaks.runLines_eq hreached⟩
  · have hcapture (name : String) (number : Nat) :
        Body.capture name number [] (opening :: rest) = extent.captured :=
      Body.capture_matched hopens hlexes hmatch
    refine ⟨hcapture, fun hline => ⟨fun hheader => ?_, fun hmethod fuel => ?_⟩⟩
    · exact ofLines_matched hline hheader hopens hlexes hmatch
    · rw [ClassEntry.ofLinesWithin, hline]
      dsimp only
      rw [hmethod.ofTokens_eq (hcapture _ _), List.append_assoc, List.singleton_append]
  · exact Body.capture_unlexed hopens herror hmatch hafter
  · exact Body.Extent.body_of_closed hafter
  · exact fun bad hmem e herror => hmatch.keeps hmem herror

/-- A body with a line that does not lex behind the opening one, and a call after it. -/
def unlexedInside : List SourceLine :=
  [⟨2, "\x7b"⟩, ⟨3, "\"bad"⟩, ⟨4, "\x7d"⟩, ⟨5, "f()"⟩]

/-- The line is the body, and running the body reports it. -/
theorem unlexedInside_kept :
    ofLines (⟨1, "procedure f"⟩ :: unlexedInside) =
        ⟨1, .ok [.declaration (.procedure "f") (.ok [⟨3, "\"bad"⟩])]⟩ :: ofLines [⟨5, "f()"⟩] ∧
      Body.capture "f" 1 [] unlexedInside = (.ok ⟨[⟨3, "\"bad"⟩], none⟩, [⟨5, "f()"⟩]) ∧
      ∀ ctx m, Run.runLines [⟨3, "\"bad"⟩] true ctx m = Run.concluded m.env.scopes.depth
        (.ok .error, { m with line := 3 }.report (.parse .unterminatedString)) := by
  have hopens : Body.opensWithBrace ⟨2, "\x7b"⟩ = true := by cbv
  have hopening : Lexed.ofLine "\x7b" =
      .ok ⟨[⟨.separator .braceOpen, "\x7b", true⟩], false⟩ := by cbv
  have hbad : Lexed.ofLine "\"bad" = .error .unterminatedString := by cbv
  have hlast : Body.braceTokens "\x7d" = [] ++ ⟨.separator .braceClose, "\x7d", true⟩ :: [] := by
    cbv
  have hline : spliceLine ⟨1, "procedure f"⟩ unlexedInside =
      (.ok [⟨.keyword .procedureWord, "procedure", true⟩, ⟨.identifier "f", "f", true⟩],
        unlexedInside) := by cbv
  have hmatch : Body.Matches ⟨2, "\x7b"⟩ unlexedInside.tail
      ⟨Body.keptFirst ⟨2, "\x7b"⟩, [⟨3, "\"bad"⟩], 4, [], [], [⟨5, "f()"⟩]⟩ := by
    refine @Body.Matches.laterLine _ [⟨3, "\"bad"⟩] ⟨4, "\x7d"⟩ _ _ _ _ hlast ?_ rfl
    have hbehind : Body.braceTokens "\x7b" = [⟨.separator .braceOpen, "\x7b", true⟩] := by
      rw [Body.braceTokens, hopening]
    have hinside : Body.braceTokens "\"bad" = [] := by rw [Body.braceTokens, hbad]
    rw [hbehind, tokensOf, List.flatMap_singleton, hinside]
    exact .nil
  rw [Body.keptFirst, hopening] at hmatch
  obtain ⟨hlexes, -, -, -, hruns⟩ := body_ends_at_match hopens hmatch
  obtain ⟨hcapture, hscript⟩ := hlexes ⟨_, hopening⟩
  have hheader : Item.HeaderLast 1
      [⟨.keyword .procedureWord, "procedure", true⟩, ⟨.identifier "f", "f", true⟩] []
      (.procedure "f") := .header rfl rfl rfl
  have hbreaks : BreaksOff [⟨3, "\"bad"⟩] [] [] ⟨3, "\"bad"⟩ .unterminatedString [] :=
    ⟨rfl, List.forall_mem_nil _, hbad, .now⟩
  refine ⟨(hscript hline).1 hheader, hcapture "f" 1, fun ctx m => ?_⟩
  have hreached : Run.reached? [] true ctx m = some m := by
    rw [Run.reached?, ofLines_nil]
    rfl
  have hrun := hruns hbreaks hreached
  rw [ofLines_nil] at hrun
  exact hrun

/-- A body whose first line does not lex, with a block in it. -/
def unlexedOpening : List SourceLine :=
  [⟨3, "if (true)"⟩, ⟨4, "\x7b"⟩, ⟨5, "println(1)"⟩, ⟨6, "\x7d"⟩, ⟨7, "println(2)"⟩, ⟨8, "\x7d"⟩]

/-- The body is taken to end where the block does: what follows it in the body is left to the
surrounding lines, and the first line is in neither. -/
theorem unlexedOpening_misses :
    Body.opensWithBrace ⟨2, "\x7b \"bad"⟩ = true ∧
      Body.Matches ⟨2, "\x7b \"bad"⟩ unlexedOpening
        ⟨[⟨2, "\x7b \"bad"⟩], unlexedOpening.take 5, 8, [], [], []⟩ ∧
      Body.capture "f" 1 [] (⟨2, "\x7b \"bad"⟩ :: unlexedOpening) =
        (.ok ⟨unlexedOpening.take 3, none⟩, unlexedOpening.drop 4) := by
  have hopening : Lexed.ofLine "\x7b \"bad" = .error .unterminatedString := by cbv
  have hlast : Body.braceTokens "\x7d" = [] ++ ⟨.separator .braceClose, "\x7d", true⟩ :: [] := by
    cbv
  have hmatch : Body.Matches ⟨2, "\x7b \"bad"⟩ unlexedOpening
      ⟨Body.keptFirst ⟨2, "\x7b \"bad"⟩, unlexedOpening.take 5, 8, [], [], []⟩ := by
    refine @Body.Matches.laterLine _ (unlexedOpening.take 5) ⟨8, "\x7d"⟩ _ _ _ _ hlast ?_ rfl
    have hnone : Body.braceTokens "\x7b \"bad" = [] := by rw [Body.braceTokens, hopening]
    rw [hnone]
    cbv
    decide
  refine ⟨by cbv, ?_, by cbv⟩
  rwa [Body.keptFirst, hopening] at hmatch

end Script

end BuildScript
