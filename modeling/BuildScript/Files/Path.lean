/-!
Paths as written. A path is a text cut at slashes; empty pieces and single points name nothing,
except that a slash at the front makes the path absolute and a point at the front is kept. A path
written in a script starts at the directory of the file it stands in.
-/

namespace BuildScript.Path

/-- The pieces between slashes; there is always at least one. -/
def pieces (path : String) : List String :=
  let (first, others) := path.toList.foldr
    (fun c (first, others) => if c == '/' then ([], first :: others) else (c :: first, others))
    (([] : List Char), ([] : List (List Char)))
  (first :: others).map String.ofList

def ofPieces (pieces : List String) : String := "/".intercalate pieces

def isAbsolute (path : String) : Bool := path.toList.head? == some '/'

/-- Whether a piece that is not the first names nothing. -/
def isIdle (piece : String) : Bool := piece == "" || piece == "."

/-- Drops idle pieces, given last first, but never the first piece of the path. -/
def dropIdle : List String → List String
  | piece :: before :: rest =>
    if isIdle piece then dropIdle (before :: rest) else piece :: before :: rest
  | pieces => pieces

/-- The path without its last name, or none if it names nothing or only the root. -/
def parent? (path : String) : Option String :=
  match dropIdle (pieces path).reverse with
  | [] | [""] => none
  | [_] => some ""
  | _ :: before =>
    match dropIdle before with
    | [""] => some "/"
    | before => some (ofPieces before.reverse)

/-- A relative path put behind a directory; an absolute one stands for itself. -/
def join (directory path : String) : String :=
  if isAbsolute path || directory.isEmpty then path
  else if directory.toList.getLast? == some '/' then directory ++ path
  else directory ++ "/" ++ path

/-- A path written in a script, as the file running it sees it. -/
def fromScript (file path : String) : String := join ((parent? file).getD "") path

end BuildScript.Path
