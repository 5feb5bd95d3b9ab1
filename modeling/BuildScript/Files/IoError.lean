/-!
Why a file operation fails, with the text and number the operating system gives each cause.
-/

namespace BuildScript

inductive IoError where
  | notFound
  | alreadyExists
  | notDirectory
  | isDirectory
  | busy
  | invalidArgument
  | nameTooLong
  | notEmpty
  /-- The content of a file is no text. -/
  | invalidText
  /-- A path holds the character with code zero. -/
  | zeroInPath
  /-- Something other than a file was to be copied. -/
  | notRegular
  /-- A directory tree has no first directory to start from. -/
  | rootless
  /-- A path that a shelf of named texts does not hold. -/
  | missing (path : String)
  deriving DecidableEq

namespace IoError

private def system (text : String) (number : Nat) : String :=
  text ++ " (os error " ++ toString number ++ ")"

def message : IoError → String
  | notFound => system "No such file or directory" 2
  | alreadyExists => system "File exists" 17
  | notDirectory => system "Not a directory" 20
  | isDirectory => system "Is a directory" 21
  | busy => system "Device or resource busy" 16
  | invalidArgument => system "Invalid argument" 22
  | nameTooLong => system "File name too long" 36
  | notEmpty => system "Directory not empty" 39
  | invalidText => "stream did not contain valid UTF-8"
  | zeroInPath => "file name contained an unexpected NUL byte"
  | notRegular => "the source path is neither a regular file nor a symlink to a regular file"
  | rootless => "failed to create whole tree"
  | missing path => path ++ " not found"

end IoError

end BuildScript
