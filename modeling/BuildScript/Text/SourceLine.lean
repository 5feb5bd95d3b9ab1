/-!
Numbered physical lines. A newline ends a line, a carriage return before it belongs to the line
end, and text after the last newline is a line of its own unless it is empty.
-/

namespace BuildScript.Text

/-- A physical line with its number in the defining file, counted from 1. -/
structure SourceLine where
  number : Nat
  text : String
  deriving DecidableEq, Inhabited

/-- Cuts at newlines; the last piece is what follows the last newline. -/
def splitAtNewlines : List Char → List Char × List (List Char)
  | [] => ([], [])
  | c :: rest =>
    let (first, others) := splitAtNewlines rest
    if c == '\n' then ([], first :: others) else (c :: first, others)

/-- Drops one carriage return at the end. -/
def dropReturn (line : List Char) : List Char :=
  if line.getLast? == some '\r' then line.dropLast else line

/-- The lines of a text given its pieces between newlines. Every piece but the last ended in a
newline. -/
def terminatedLines : List Char → List (List Char) → List (List Char)
  | last, [] => if last.isEmpty then [] else [last]
  | piece, next :: others => dropReturn piece :: terminatedLines next others

def lines (text : String) : List String :=
  let (first, others) := splitAtNewlines text.toList
  (terminatedLines first others).map String.ofList

def SourceLine.split (text : String) : List SourceLine :=
  (lines text).zipIdx 1 |>.map fun (line, number) => ⟨number, line⟩

end BuildScript.Text
