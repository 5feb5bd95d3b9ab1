import BuildScript.Environment
import BuildScript.Fault
import BuildScript.Files.FileSystem
import BuildScript.Text.Replace
import BuildScript.Value.ClassTable
import BuildScript.Value.Convert

/-!
The state of a running script: its names and storage, the classes, where it stands in which file,
what was reported, and the file system. Everything printed or reported is an event.
-/

namespace BuildScript

structure Options where
  /-- The layout of a diagnostic, with places for file, line and message. -/
  errorFormat : String
  maxCallDepth : Nat
  maxIncludeDepth : Nat

def Options.standard : Options :=
  { errorFormat := "\x7bfile\x7d:\x7bline\x7d: \x7bmessage\x7d"
    maxCallDepth := 128
    maxIncludeDepth := 16 }

inductive Event where
  | printed (text : String)
  | warning (message : String)
  | error (message : String)
  | debug (message : String)
  deriving DecidableEq

structure Machine where
  env : Environment
  classes : ClassTable
  /-- The file being executed. -/
  file : String
  line : Nat
  /-- An error was reported since the current file began. -/
  errorFlag : Bool
  errorCount : Nat
  /-- Whether the `if` just completed ran its body, as long as an `else` may follow. -/
  lastIf : Option Bool
  callDepth : Nat
  includeDepth : Nat
  options : Options
  files : FileSystem
  /-- What was printed and reported, last first. -/
  events : List Event
  /-- The next identity to give out. -/
  nextId : Identity

namespace Machine

def initial (options : Options) (files : FileSystem) : Machine :=
  { env := .empty
    classes := .builtin
    file := ""
    line := 0
    errorFlag := false
    errorCount := 0
    lastIf := none
    callDepth := 0
    includeDepth := 0
    options := options
    files := files
    events := []
    nextId := ClassTable.firstFreeId }

/-- A message laid out with the current file and line. -/
def diagnostic (m : Machine) (message : String) : String :=
  let text := Text.replaceAll m.options.errorFormat "\x7bfile\x7d" m.file
  let text := Text.replaceAll text "\x7bline\x7d" (toString m.line)
  Text.replaceAll text "\x7bmessage\x7d" message

def emit (m : Machine) (event : Event) : Machine := { m with events := event :: m.events }

def print (m : Machine) (text : String) : Machine := m.emit (.printed text)

def warn (m : Machine) (message : String) : Machine := m.emit (.warning (m.diagnostic message))

def reportMessage (m : Machine) (message : String) : Machine :=
  { m.emit (.error (m.diagnostic message)) with
    errorFlag := true
    errorCount := m.errorCount + 1 }

def report (m : Machine) (fault : Fault) : Machine := m.reportMessage fault.message

def reportAll (m : Machine) (errors : List EvalError) : Machine :=
  errors.foldl (fun m error => m.report (.eval error)) m

/-- Registers a class under a name that is new. -/
def registerClass (m : Machine) (template : ClassTemplate) : Except EvalError Machine :=
  match m.classes.find? template.name with
  | some _ => .error (.classRedefined template.name)
  | none => .ok { m with classes := m.classes ++ [template] }

/-- The path of a file as the running script writes it. -/
def scriptPath (m : Machine) (path : String) : String := Path.fromScript m.file path

end Machine

end BuildScript
