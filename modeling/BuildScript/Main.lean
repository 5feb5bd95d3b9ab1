import BuildScript.CommandLine.Build
import BuildScript.Files.Change

/-!
The command: it reads the directory it is started in, performs its command line on what it read, and
makes the changes and writes the texts that come of it.
-/

namespace BuildScript.Command

/-- Reads a directory entry and what is below it. Links to directories and what cannot be read are
left out. -/
partial def load (above : Place) (disk : Disk) (entry : IO.FS.DirEntry) : IO Disk := do
  let place := above ++ [entry.fileName]
  let link := (← entry.path.symlinkMetadata).type
  let found ← entry.path.metadata
  match link, found.type with
  | .dir, _ =>
    let disk := (disk.withDirectory place).withTime place found.modified.sec
    (← entry.path.readDir).foldlM (loadReadable place) disk
  | _, .file =>
    let bytes ← IO.FS.readBinFile entry.path
    return (disk.withFile place bytes).withTime place found.modified.sec
  | _, _ => return disk
where
  loadReadable (above : Place) (disk : Disk) (entry : IO.FS.DirEntry) : IO Disk := do
    try load above disk entry catch _ => return disk

def change : DiskChange → IO Unit
  | .remove place true => IO.FS.removeDir place.path
  | .remove place false => IO.FS.removeFile place.path
  | .makeDirectory place => IO.FS.createDir place.path
  | .writeFile place bytes => IO.FS.writeBinFile place.path bytes
  | .setMode place mode => IO.Prim.setAccessRights place.path (UInt32.ofNat mode)

/-- The time in seconds since the start of 1970, as far as the newest file tells. -/
def newest (disk : Disk) : Int := (disk.entries.map (·.2.modified)).foldl max 0

end BuildScript.Command

open BuildScript in
def main (arguments : List String) : IO UInt32 := do
  let entries ← (← IO.currentDir).readDir
  let disk ← entries.foldlM (Command.load.loadReadable []) (Disk.empty 0)
  let disk := { disk with clock := Command.newest disk }
  let outcome := Build.perform (.disk disk) arguments
  (← IO.getStdout).putStr outcome.out
  (← IO.getStderr).putStr outcome.err
  match outcome.files with
  | .disk after => (disk.changes after).forM Command.change
  | .shelf _ => pure ()
  return UInt32.ofNat outcome.exitCode
