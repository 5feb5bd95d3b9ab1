import BuildScript.Files.Disk

/-!
What has to be done to a directory tree to make another of it: what is gone or is of another kind is
removed, contents first, and what is new is made, directories first.
-/

namespace BuildScript

inductive DiskChange where
  | remove (place : Place) (isDirectory : Bool)
  | makeDirectory (place : Place)
  | writeFile (place : Place) (bytes : ByteArray)
  | setMode (place : Place) (mode : Nat)

/-- Whether an entry can stay and at most be written over. -/
def DiskEntry.sameKind (a b : DiskEntry) : Bool := a.isDirectory == b.isDirectory

namespace Disk

/-- What is done for an entry, given the one that was there before. -/
def changesFor (place : Place) (before : Option DiskEntry) (after : DiskEntry) : List DiskChange :=
  let kept := before.filter (·.sameKind after)
  let content :=
    match kept.map (·.content), after.content with
    | some .directory, .directory => []
    | some (.file old), .file new => if old == new then [] else [.writeFile place new]
    | _, .directory => [.makeDirectory place]
    | _, .file bytes => [.writeFile place bytes]
  let standard := if after.isDirectory then directoryMode else fileMode
  let mode := (kept.map (·.mode)).getD standard
  content ++ if mode == after.mode then [] else [.setMode place after.mode]

/-- Whether an entry has to be removed on the way to another tree. -/
def isGone (after : Disk) (place : Place) (entry : DiskEntry) : Bool :=
  !(after.find? place).any (·.sameKind entry)

/-- The changes that lead from one tree to another, in an order in which they can be made. -/
def changes (before after : Disk) : List DiskChange :=
  let gone := before.entries.filter fun (place, entry) => after.isGone place entry
  let gone := gone.mergeSort fun a b => b.1.length ≤ a.1.length
  let made := after.entries.mergeSort fun a b => a.1.length ≤ b.1.length
  gone.map (fun (place, entry) => .remove place entry.isDirectory) ++
    made.flatMap fun (place, entry) => changesFor place (before.find? place) entry

end Disk

end BuildScript
