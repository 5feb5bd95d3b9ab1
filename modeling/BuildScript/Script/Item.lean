import BuildScript.Clause
import BuildScript.Expr.Statement
import BuildScript.Script.Body

/-!
Scripts: what the lines of a text ask for, line by line and item by item. How a text falls into
items depends on the text alone, so a script is known before any of it runs; what is wrong with an
item stands in its place and is reported when its turn comes.
-/

namespace BuildScript

open Text (SourceLine)

inductive Item where
  | condition (expr : Except SyntaxError Expr)
  | elseMark
  | blockOpen
  | blockClose
  /-- `return`, with its expression if it has one. -/
  | giveBack (expr : Option (Except SyntaxError Expr))
  | expression (expr : Expr)
  | declaration (header : Header) (body : Except SyntaxError (List SourceLine))
  /-- A statement that does not parse. -/
  | rejected (error : SyntaxError)
  /-- A malformed `if`; the rest of its line is dropped. -/
  | malformed (error : SyntaxError)
  deriving Inhabited

namespace Item

/-- The item of a clause that is no declaration, or the header of one. -/
def ofClause : Clause → Item ⊕ Header
  | .condition tokens => .inl (.condition (Expr.parse tokens))
  | .elseMark => .inl .elseMark
  | .blockOpen => .inl .blockOpen
  | .blockClose => .inl .blockClose
  | .giveBack tokens =>
    .inl (.giveBack (if tokens.isEmpty then none else some (Expr.parse tokens)))
  | .statement tokens =>
    match Statement.parse tokens with
    | .error e => .inl (.rejected e)
    | .ok (.expression expr) => .inl (.expression expr)
    | .ok (.declaration header) => .inr header
  | .malformed e => .inl (.malformed e)

/-- The items of a logical line and the physical lines that are left after it. A declaration takes
its body from the line and, if it does not end there, from the lines that follow; then nothing else
of the line is read. -/
def ofTokens (number : Nat) (tokens : List Token) (rest : List SourceLine) :
    List Item × List SourceLine :=
  match tokens with
  | [] => ([], rest)
  | token :: tokens =>
    match Clause.read? token tokens with
    | none => ofTokens number tokens rest
    | some (clause, n) =>
      match ofClause clause with
      | .inl item =>
        let (items, rest) := ofTokens number (tokens.drop n) rest
        (item :: items, rest)
      | .inr header =>
        match Body.capture header.name number (tokens.drop n) rest with
        | (.error e, rest) => ([.declaration header (.error e)], rest)
        | (.ok ⟨body, none⟩, rest) => ([.declaration header (.ok body)], rest)
        | (.ok ⟨body, some end'⟩, rest) =>
          let (items, rest) := ofTokens number ((tokens.drop n).drop end') rest
          (.declaration header (.ok body) :: items, rest)
termination_by tokens.length
decreasing_by all_goals simp only [List.length_cons, List.length_drop]; omega

theorem length_ofTokens_le (number : Nat) (tokens : List Token) (rest : List SourceLine) :
    (ofTokens number tokens rest).2.length ≤ rest.length := by
  fun_induction ofTokens number tokens rest with
  | case1 rest => exact Nat.le_refl _
  | case2 rest token tokens h ih => exact ih
  | case3 rest token tokens clause n h item h' items rest' heq ih =>
    rw [heq] at ih
    exact ih
  | case4 rest token tokens clause n h header h' e rest' heq =>
    have := Body.length_capture_le header.name number (tokens.drop n) rest
    rw [heq] at this
    exact this
  | case5 rest token tokens clause n h header h' body rest' heq =>
    have := Body.length_capture_le header.name number (tokens.drop n) rest
    rw [heq] at this
    exact this
  | case6 rest token tokens clause n h header h' body e rest' heq items rest'' heq' ih =>
    have := Body.length_capture_le header.name number (tokens.drop n) rest
    rw [heq] at this
    rw [heq'] at ih
    exact Nat.le_trans ih this

end Item

/-- A logical line of a script, with the number of its first physical line. -/
structure ScriptLine where
  number : Nat
  items : Except SyntaxError (List Item)
  deriving Inhabited

abbrev Script := List ScriptLine

/-- The script of some lines. -/
def Script.ofLines : List SourceLine → Script
  | [] => []
  | line :: rest =>
    let spliced := spliceLine line rest
    match spliced.1 with
    | .error e => ⟨line.number, .error e⟩ :: Script.ofLines spliced.2
    | .ok tokens =>
      let read := Item.ofTokens line.number tokens spliced.2
      ⟨line.number, .ok read.1⟩ :: Script.ofLines read.2
termination_by lines => lines.length
decreasing_by
  · exact Nat.lt_succ_of_le (length_spliceLine_le line rest)
  · exact Nat.lt_succ_of_le (Nat.le_trans (Item.length_ofTokens_le line.number tokens _)
      (length_spliceLine_le line rest))

end BuildScript
