import BuildScript.Files.Disk
import BuildScript.Files.Shelf

/-!
The file operations a script can perform, on either kind of file system. An operation gives the file
system it leaves behind, and the cause if it failed.
-/

namespace BuildScript

inductive FileSystem where
  | disk (disk : Disk)
  | shelf (shelf : Shelf)

namespace FileSystem

def readText (files : FileSystem) (path : String) : Except IoError String :=
  match files with
  | disk d => d.readText path
  | shelf s => s.readText path

/-- The names in a directory, in no particular order. -/
def list (files : FileSystem) (path : String) : Except IoError (List String) :=
  match files with
  | disk d => d.list path
  | shelf s => .ok (s.list path)

/-- Seconds since the start of 1970. -/
def modified (files : FileSystem) (path : String) : Except IoError Int :=
  match files with
  | disk d => d.modified path
  | shelf s => (s.find path).map (·.modified)

/-- The outcome of an operation that changes nothing when it fails. -/
def settle (files : FileSystem) (result : Except IoError FileSystem) :
    FileSystem × Option IoError :=
  match result with
  | .ok changed => (changed, none)
  | .error e => (files, some e)

def copy (files : FileSystem) (source destination : String) : FileSystem × Option IoError :=
  match files with
  | disk d => files.settle ((d.copy source destination).map disk)
  | shelf s => files.settle ((s.copy source destination).map shelf)

def move (files : FileSystem) (source destination : String) : FileSystem × Option IoError :=
  match files with
  | disk d => files.settle ((d.move source destination).map disk)
  | shelf s => files.settle ((s.move source destination).map shelf)

def remove (files : FileSystem) (path : String) : FileSystem × Option IoError :=
  match files with
  | disk d => let (d, e) := d.remove path; (disk d, e)
  | shelf s => files.settle ((s.remove path).map shelf)

def makeDirectory (files : FileSystem) (path : String) : FileSystem × Option IoError :=
  match files with
  | disk d => files.settle ((d.makeDirectory path).map disk)
  | shelf _ => (files, none)

def makePath (files : FileSystem) (path : String) : FileSystem × Option IoError :=
  match files with
  | disk d => let (d, e) := d.makePath path; (disk d, e)
  | shelf _ => (files, some .rootless)

def touch (files : FileSystem) (path : String) : FileSystem × Option IoError :=
  match files with
  | disk d => files.settle ((d.touch path).map disk)
  | shelf s => (shelf (s.touch path), none)

def setMode (files : FileSystem) (path : String) (mode : Nat) : FileSystem × Option IoError :=
  match files with
  | disk d => files.settle ((d.setMode path mode).map disk)
  | shelf s => (files, match s.find path with | .ok _ => none | .error e => some e)

end FileSystem

end BuildScript
