import BuildScript.Files.IoError
import BuildScript.Files.Path
import BuildScript.Text.Wildcard

/-!
Listing what a pattern names. The pattern for names is what follows the last slash; the directory
before it is kept in the result as written. Of the file system only the names in a directory matter.
-/

namespace BuildScript.Listing

/-- The directory and the name pattern of a path pattern. -/
def splitPattern (pattern : String) : String × String :=
  let pieces := Path.pieces pattern
  (Path.ofPieces pieces.dropLast, pieces.getLastD "")

/-- The directory to read, which is the script's own if the pattern has none. -/
def directory (pattern : String) : String :=
  let (directory, _) := splitPattern pattern
  if directory.isEmpty then "." else directory

/-- The names a pattern matches among those of its directory, in ascending order. -/
def matching (pattern : String) (names : List String) : List String :=
  let (directory, namePattern) := splitPattern pattern
  let found := (names.mergeSort fun a b => a ≤ b).filter (Text.wildcardMatches namePattern)
  if directory.isEmpty then found else found.map fun name => directory ++ "/" ++ name

/-- What a pattern in a file names, where directories have the names given. One that cannot be read
has none. -/
def listed (list : String → Except IoError (List String)) (file pattern : String) : List String :=
  let names :=
    match list (Path.fromScript file (directory pattern)) with
    | .ok names => names
    | .error _ => []
  matching pattern names

end BuildScript.Listing
