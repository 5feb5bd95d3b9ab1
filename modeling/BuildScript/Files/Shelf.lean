import BuildScript.Files.IoError
import BuildScript.Files.Path

/-!
A shelf of named texts: a file system without directories, whose files are known by their paths
with idle pieces taken out.
-/

namespace BuildScript

structure ShelfEntry where
  text : String
  modified : Int

structure Shelf where
  entries : List (String × ShelfEntry)

namespace Shelf

/-- The time of a file that was given none. -/
def newTime : Int := 1000

/-- The key of a path: its pieces without the idle ones. -/
def key (path : String) : String :=
  Path.ofPieces ((Path.pieces path).filter fun piece => !Path.isIdle piece)

def find (shelf : Shelf) (path : String) : Except IoError ShelfEntry :=
  match shelf.entries.find? (·.1 == key path) with
  | some (_, entry) => .ok entry
  | none => .error (.missing (key path))

/-- Puts a text under a path, over what was there. -/
def put (shelf : Shelf) (path : String) (entry : ShelfEntry) : Shelf :=
  ⟨shelf.entries.filter (·.1 != key path) ++ [(key path, entry)]⟩

def erase (shelf : Shelf) (path : String) : Shelf :=
  ⟨shelf.entries.filter (·.1 != key path)⟩

def readText (shelf : Shelf) (path : String) : Except IoError String :=
  (shelf.find path).map (·.text)

/-- The last names of the keys in a directory, in descending order. -/
def list (shelf : Shelf) (path : String) : List String :=
  let names := shelf.entries.filterMap fun (name, _) =>
    let pieces := Path.pieces name
    if Path.ofPieces pieces.dropLast == key path then pieces.getLast? else none
  names.mergeSort fun a b => b ≤ a

def copy (shelf : Shelf) (source destination : String) : Except IoError Shelf :=
  (shelf.find source).map (shelf.put destination)

def move (shelf : Shelf) (source destination : String) : Except IoError Shelf :=
  (shelf.find source).map ((shelf.erase source).put destination)

def remove (shelf : Shelf) (path : String) : Except IoError Shelf :=
  (shelf.find path).map fun _ => shelf.erase path

def touch (shelf : Shelf) (path : String) : Shelf :=
  match shelf.find path with
  | .ok _ => shelf
  | .error _ => shelf.put path ⟨"", newTime⟩

end Shelf

end BuildScript
