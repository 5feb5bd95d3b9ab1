import BuildScript.Files.IoError
import BuildScript.Files.Path

/-!
A directory tree with permission bits and modification times, as a table from places to entries.
The working directory is the place without names. It, the directories above it and the root are
always there, whether the table has them or not. Paths are walked piece by piece: every piece but
the last has to be a directory on the way.
-/

namespace BuildScript

/-- The names from the working directory to an entry. Two points lead to the directory above and a
slash stands for the root; neither comes after a name. -/
abbrev Place := List String

namespace Place

/-- Whether a place is the working directory, above it or the root. -/
def isStanding (place : Place) : Bool := place == ["/"] || place.all (· == "..")

/-- The directory above. The root is above itself. -/
def above (place : Place) : Place :=
  if place == ["/"] then place
  else if place.isStanding then ".." :: place
  else place.dropLast

/-- Whether a place lies below a directory, at any depth. -/
def isBelow (place directory : Place) : Bool :=
  directory.isPrefixOf place &&
    (place.drop directory.length).head?.any fun name => name != ".." && name != "/"

/-- Whether a place is an entry of a directory. -/
def isEntryOf (place directory : Place) : Bool :=
  !place.isStanding && place.dropLast == directory

/-- A path that leads to a place. -/
def path (place : Place) : String := if place.isEmpty then "." else Path.ofPieces place

end Place

inductive DiskContent where
  | file (bytes : ByteArray)
  | directory

def DiskContent.isDirectory : DiskContent → Bool
  | directory => true
  | file _ => false

structure DiskEntry where
  content : DiskContent
  mode : Nat
  /-- Seconds since the start of 1970. -/
  modified : Int

def DiskEntry.isDirectory (entry : DiskEntry) : Bool := entry.content.isDirectory

structure Disk where
  entries : List (Place × DiskEntry)
  /-- The time given to everything that is changed. -/
  clock : Int

namespace Disk

def fileMode : Nat := 0o644

def directoryMode : Nat := 0o755

/-- The permission bits an entry can have. -/
def modeMask : Nat := 0o7777

/-- The bit that a new directory takes over from the one it is made in. -/
def setGroupMode : Nat := 0o2000

def longestName : Nat := 255

def longestPath : Nat := 4096

def empty (clock : Int) : Disk := ⟨[], clock⟩

def find? (disk : Disk) (place : Place) : Option DiskEntry :=
  match disk.entries.find? (·.1 == place) with
  | some (_, entry) => some entry
  | none => if place.isStanding then some ⟨.directory, directoryMode, disk.clock⟩ else none

/-- Puts an entry at a place, over what was there. -/
def put (disk : Disk) (place : Place) (entry : DiskEntry) : Disk :=
  { disk with entries := disk.entries.filter (·.1 != place) ++ [(place, entry)] }

/-- Makes a directory of a place and of those above it, wherever nothing is. -/
def withDirectory (disk : Disk) (place : Place) : Disk :=
  (List.range (place.length + 1)).foldl
    (fun disk n =>
      if (disk.find? (place.take n)).isSome then disk
      else disk.put (place.take n) ⟨.directory, directoryMode, disk.clock⟩)
    disk

/-- Puts a file at a place below directories. -/
def withFile (disk : Disk) (place : Place) (bytes : ByteArray) : Disk :=
  (disk.withDirectory place.dropLast).put place ⟨.file bytes, fileMode, disk.clock⟩

/-- Gives the entry at a place a modification time. -/
def withTime (disk : Disk) (place : Place) (seconds : Int) : Disk :=
  match disk.find? place with
  | some entry => disk.put place { entry with modified := seconds }
  | none => disk

/-- Marks a directory as changed. -/
def touchPlace (disk : Disk) (place : Place) : Disk := disk.withTime place disk.clock

/-- Puts an entry into its directory, which changes that directory if the entry is new. -/
def install (disk : Disk) (place : Place) (entry : DiskEntry) : Disk :=
  match disk.find? place with
  | some _ => disk.put place entry
  | none => (disk.put place entry).touchPlace place.dropLast

/-- The entries below the working directory. -/
def inside (disk : Disk) : List (Place × DiskEntry) := disk.entries.filter (·.1.isBelow [])

/-- Whether a directory has no entries. -/
def isBare (disk : Disk) (place : Place) : Bool := !disk.entries.any (·.1.isEntryOf place)

/-- Removes what is at a place from its directory. -/
def erase (disk : Disk) (place : Place) : Disk :=
  ({ disk with entries := disk.entries.filter (·.1 != place) } : Disk).touchPlace place.dropLast

/-- Removes everything below a directory, which changes it if it had entries. -/
def clear (disk : Disk) (place : Place) : Disk :=
  if disk.isBare place then disk
  else ({ disk with entries := disk.entries.filter (!·.1.isBelow place) } : Disk).touchPlace place

/-- Where a path leads: a place, whether the path names it, and whether a slash follows. -/
structure Target where
  place : Place
  /-- The last piece is a name, so the place can be created, moved or removed by it. -/
  named : Bool
  slash : Bool

def step (disk : Disk) (place : Place) (piece : String) : Except IoError Place :=
  match disk.find? place with
  | none => .error .notFound
  | some entry =>
    if !entry.isDirectory then .error .notDirectory
    else if piece == "." then .ok place
    else if piece == ".." then .ok place.above
    else if piece.utf8ByteSize > longestName then .error .nameTooLong
    else .ok (place ++ [piece])

def walk (disk : Disk) : Place → List String → Except IoError Place
  | place, [] => .ok place
  | place, piece :: rest => do walk disk (← disk.step place piece) rest

/-- Walks a path. Its last piece need not exist. -/
def target (disk : Disk) (path : String) : Except IoError Target := do
  if path.isEmpty then throw .notFound
  if path.toList.contains '\x00' then throw .zeroInPath
  if path.utf8ByteSize ≥ longestPath then throw .nameTooLong
  let names := (Path.pieces path).filter (· != "")
  let place ← disk.walk (if Path.isAbsolute path then ["/"] else []) names
  let last := names.getLastD "."
  return ⟨place, last != "." && last != "..", path.toList.getLast? == some '/'⟩

/-- The entry a path leads to. A slash after it asks for a directory. -/
def lookup (disk : Disk) (path : String) : Except IoError (Target × DiskEntry) := do
  let target ← disk.target path
  match disk.find? target.place with
  | none => throw .notFound
  | some entry =>
    if target.slash && !entry.isDirectory then throw .notDirectory
    return (target, entry)

/-- Where a new file may be written: below a directory, and not at one. -/
def writable (disk : Disk) (path : String) : Except IoError (Place × Option DiskEntry) := do
  let target ← disk.target path
  match disk.find? target.place.dropLast, disk.find? target.place with
  | _, some entry =>
    if entry.isDirectory then throw .isDirectory
    if target.slash then throw .notDirectory
    return (target.place, some entry)
  | some _, none =>
    if target.slash then throw .isDirectory
    return (target.place, none)
  | none, none => throw .notFound

def readText (disk : Disk) (path : String) : Except IoError String := do
  let (_, entry) ← disk.lookup path
  match entry.content with
  | .directory => throw .isDirectory
  | .file bytes =>
    match String.fromUTF8? bytes with
    | some text => return text
    | none => throw .invalidText

/-- The names of the entries in a directory. A file has none. -/
def list (disk : Disk) (path : String) : Except IoError (List String) := do
  let (target, _) ← disk.lookup path
  return disk.entries.filterMap fun (place, _) =>
    if place.isEntryOf target.place then place.getLast? else none

/-- Copies a file with its permission bits. A file copied onto itself is emptied first. -/
def copy (disk : Disk) (source destination : String) : Except IoError Disk := do
  let (origin, entry) ← disk.lookup source
  match entry.content with
  | .directory => throw .notRegular
  | .file bytes =>
    let (place, _) ← disk.writable destination
    let bytes := if place == origin.place then ByteArray.empty else bytes
    return disk.install place ⟨.file bytes, entry.mode, disk.clock⟩

/-- Whether something may be moved onto an entry. -/
def checkReplace (disk : Disk) (place : Place) (moved : DiskEntry) : Except IoError Unit :=
  match disk.find? place with
  | none => .ok ()
  | some entry =>
    match moved.isDirectory, entry.isDirectory with
    | true, false => .error .notDirectory
    | false, true => .error .isDirectory
    | false, false => .ok ()
    | true, true => if disk.isBare place then .ok () else .error .notEmpty

/-- Moves a file or directory with everything below it. -/
def move (disk : Disk) (source destination : String) : Except IoError Disk := do
  let origin ← disk.target source
  let goal ← disk.target destination
  if !origin.named || !goal.named then throw .busy
  let (_, entry) ← disk.lookup source
  if (disk.find? goal.place.dropLast).isNone then throw .notFound
  if goal.slash && !entry.isDirectory then throw .notDirectory
  if goal.place == origin.place then return disk
  if origin.place.isPrefixOf goal.place then throw .invalidArgument
  disk.checkReplace goal.place entry
  let entries := (disk.erase goal.place).entries.map fun (p, e) =>
    (if origin.place.isPrefixOf p then goal.place ++ p.drop origin.place.length else p, e)
  return ({ disk with entries } : Disk).touchPlace origin.place.dropLast
    |>.touchPlace goal.place.dropLast

/-- Removes a directory after everything below it. A path that leads through what was below leads
nowhere by then, so the directory stays and nothing fails. -/
def removeDirectory (disk : Disk) (path : String) (place : Place) : Disk × Option IoError :=
  let cleared := disk.clear place
  match cleared.target path with
  | .error .notFound => (cleared, none)
  | .error e => (cleared, some e)
  | .ok target =>
    if target.named then (cleared.erase place, none) else (cleared, some .invalidArgument)

/-- Removes a file, or a directory with everything below it. -/
def remove (disk : Disk) (path : String) : Disk × Option IoError :=
  match disk.lookup path with
  | .error e => (disk, some e)
  | .ok (target, entry) =>
    if entry.isDirectory then disk.removeDirectory path target.place
    else (disk.erase target.place, none)

def makeDirectory (disk : Disk) (path : String) : Except IoError Disk := do
  let target ← disk.target path
  match disk.find? target.place, disk.find? target.place.dropLast with
  | some _, _ => throw .alreadyExists
  | none, none => throw .notFound
  | none, some parent =>
    let mode := directoryMode ||| (parent.mode &&& setGroupMode)
    return disk.install target.place ⟨.directory, mode, disk.clock⟩

def isDirectory (disk : Disk) (path : String) : Bool :=
  match disk.lookup path with
  | .ok (_, entry) => entry.isDirectory
  | .error _ => false

/-- Makes a directory and the missing ones above it, keeping what was made when a later one fails.
Each parent is a shorter path, so the length of the path is fuel enough. -/
def makePathWith : Nat → Disk → String → Disk × Option IoError
  | 0, disk, _ => (disk, some .rootless)
  | fuel + 1, disk, path =>
    if path.isEmpty then (disk, none)
    else
      match disk.makeDirectory path with
      | .ok disk => (disk, none)
      | .error .notFound =>
        match Path.parent? path with
        | none => (disk, some .rootless)
        | some parent =>
          match makePathWith fuel disk parent with
          | (disk, some e) => (disk, some e)
          | (disk, none) =>
            match disk.makeDirectory path with
            | .ok disk => (disk, none)
            | .error e => (disk, if disk.isDirectory path then none else some e)
      | .error e => (disk, if disk.isDirectory path then none else some e)

def makePath (disk : Disk) (path : String) : Disk × Option IoError :=
  makePathWith (path.length + 1) disk path

/-- Makes an empty file; one that is there is left alone. -/
def touch (disk : Disk) (path : String) : Except IoError Disk := do
  match ← disk.writable path with
  | (_, some _) => return disk
  | (place, none) => return disk.install place ⟨.file ByteArray.empty, fileMode, disk.clock⟩

def setMode (disk : Disk) (path : String) (mode : Nat) : Except IoError Disk := do
  let (target, entry) ← disk.lookup path
  return disk.put target.place { entry with mode := mode &&& modeMask }

def modified (disk : Disk) (path : String) : Except IoError Int := do
  let (_, entry) ← disk.lookup path
  return entry.modified

end Disk

end BuildScript
