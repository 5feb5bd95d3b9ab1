import BuildScript.CommandLine.Request
import BuildScript.Run.Session

/-!
Running a build script for the command line and showing the settings it leaves behind. The exit code
tells whether an error was reported, and is 2 for a command line that cannot be read.
-/

namespace BuildScript

/-- What a command leaves behind: its exit code, the two texts it wrote and the files. -/
structure Outcome where
  exitCode : Nat
  out : String
  err : String
  files : FileSystem

namespace Build

def versionText : String := "pile 0.1.0\n"

def helpText : String :=
  String.join <| List.map (· ++ "\n")
    [ "Usage: pile [OPTIONS] [FILE]"
    , ""
    , "Arguments:"
    , "  [FILE]  The build script to run, if not Pilefile"
    , ""
    , "Options:"
    , "  -D <NAME=VALUE>           Defines a global macro before the script runs"
    , "      --dump                Prints every global the script left behind"
    , "      --error-format <FMT>  Layout of error messages"
    , "  -v, --verbose             Shows debug messages"
    , "  -h, --help                Prints this text"
    , "  -V, --version             Prints the version" ]

/-- The global names that hold the settings of a build. -/
def settingNames : List String := ["OUTPUT", "SOURCES", "CFLAGS", "LFLAGS", "LIBRARIES"]

/-- Defines global names as outside text, up to the first that is not new. -/
def defineAll (m : Machine) :
    List (String × String) → Except (String × EvalError) Machine
  | [] => .ok m
  | (name, text) :: rest =>
    match Session.defineGlobal m name (.macroText text) with
    | .ok m => defineAll m rest
    | .error e => .error (name, e)

/-- What the events printed, first first. -/
def printedText (events : List Event) : String :=
  String.join (events.filterMap fun
    | .printed text => some text
    | _ => none)

/-- What the events say to the user. Debug messages are for verbose runs only. -/
def diagnosticText (verbose : Bool) (events : List Event) : String :=
  String.join (events.filterMap fun
    | .printed _ => none
    | .warning message => some ("warning: " ++ message ++ "\n")
    | .error message => some ("error: " ++ message ++ "\n")
    | .debug message => if verbose then some ("debug: " ++ message ++ "\n") else none)

/-- One line for each of the names that is bound. -/
def settings (m : Machine) (names : List String) : String :=
  String.join (names.filterMap fun name =>
    (m.env.global? name).map fun value => name ++ " = " ++ value.text ++ "\n")

def options (invocation : Invocation) : Options :=
  { Options.standard with
    errorFormat := invocation.errorFormat.getD Options.standard.errorFormat }

def run (files : FileSystem) (invocation : Invocation) : Outcome :=
  match defineAll (.initial (options invocation) files) invocation.definitions with
  | .error (name, e) =>
    { exitCode := 1
      out := ""
      err := "error: -D " ++ name ++ ": " ++ e.message ++ "\n"
      files }
  | .ok m =>
    let (_, m) := Session.runFile .none invocation.file m
    let names := if invocation.dump then m.env.scopes.globalNames else settingNames
    { exitCode := if m.errorCount > 0 then 1 else 0
      out := printedText m.events.reverse ++ settings m names
      err := diagnosticText invocation.verbose m.events.reverse
      files := m.files }

/-- Performs a command line. -/
def perform (files : FileSystem) (arguments : List String) : Outcome :=
  match Request.ofArguments arguments with
  | .error e => { exitCode := 2, out := "", err := "error: " ++ e.message ++ "\n", files }
  | .ok .version => { exitCode := 0, out := versionText, err := "", files }
  | .ok .help => { exitCode := 0, out := helpText, err := "", files }
  | .ok (.run invocation) => run files invocation

end Build

end BuildScript
