import BuildScript.Script.Item

/-!
Class bodies. A body holds field and method declarations; anything else is a fault at its line, and
the class is made from what remains. A statement at fault takes the rest of its line with it.
-/

namespace BuildScript

open Text (SourceLine)

inductive Member where
  | field (type : DataType) (name : String)
  | method (signature : Signature) (body : List SourceLine)

/-- A member or a fault, with the number of its line. -/
structure ClassEntry where
  line : Nat
  entry : Except SyntaxError Member

namespace ClassEntry

/-- The entries of a logical line of the body and the physical lines that are left after it. -/
def ofTokens (number : Nat) (tokens : List Token) (rest : List SourceLine) :
    List ClassEntry × List SourceLine :=
  match tokens with
  | [] => ([], rest)
  | token :: tokens =>
    match Clause.read? token tokens with
    | none => ofTokens number tokens rest
    | some (.statement statement, n) =>
      match Statement.parse statement with
      | .error e => ([⟨number, .error e⟩], rest)
      | .ok (.expression (.declare type name)) =>
        let (entries, rest) := ofTokens number (tokens.drop n) rest
        (⟨number, .ok (.field type name)⟩ :: entries, rest)
      | .ok (.declaration (.function signature)) =>
        match Body.capture signature.name number (tokens.drop n) rest with
        | (.error e, rest) => ([⟨number, .error e⟩], rest)
        | (.ok ⟨body, none⟩, rest) => ([⟨number, .ok (.method signature body)⟩], rest)
        | (.ok ⟨body, some end'⟩, rest) =>
          let (entries, rest) := ofTokens number ((tokens.drop n).drop end') rest
          (⟨number, .ok (.method signature body)⟩ :: entries, rest)
      | .ok _ => ([⟨number, .error .invalidClassMember⟩], rest)
    | some (_, n) =>
      let (entries, rest) := ofTokens number (tokens.drop n) rest
      (⟨number, .error .invalidClassMember⟩ :: entries, rest)
termination_by tokens.length
decreasing_by all_goals simp only [List.length_cons, List.length_drop]; omega

/-- The entries of a class body. Every step reads a line, so their number is fuel enough. -/
def ofLinesWithin : Nat → List SourceLine → List ClassEntry
  | 0, _ => []
  | _ + 1, [] => []
  | fuel + 1, line :: rest =>
    match spliceLine line rest with
    | (.error e, rest) => ⟨line.number, .error e⟩ :: ofLinesWithin fuel rest
    | (.ok tokens, rest) =>
      let (entries, rest) := ofTokens line.number tokens rest
      entries ++ ofLinesWithin fuel rest

def ofLines (lines : List SourceLine) : List ClassEntry := ofLinesWithin lines.length lines

end ClassEntry

end BuildScript
