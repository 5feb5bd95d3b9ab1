/-!
What a command line asks for. Arguments are read from the left, and the first one that is wrong, or
that asks for the version or the help text, decides. An argument that begins with a dash names
options unless it is the dash alone or comes after a double dash; an option that takes a value has
it attached or takes the next argument, which must not look like an option. Every option but a
definition is given at most once.
-/

namespace BuildScript

/-- A build script to run. -/
structure Invocation where
  file : String
  /-- Global names that stand for text before the script runs. -/
  definitions : List (String × String)
  /-- Every global name is shown instead of the build settings alone. -/
  dump : Bool
  errorFormat : Option String
  verbose : Bool

inductive Request where
  | run (invocation : Invocation)
  | version
  | help

inductive UsageError where
  | unknownOption (option : String)
  | missingValue (option : String)
  | unwantedValue (option : String)
  | repeatedOption (option : String)
  | malformedDefinition (text : String)
  | emptyFileName
  | surplusArgument (argument : String)
  deriving DecidableEq

namespace UsageError

private def quoted (text : String) : String := "'" ++ text ++ "'"

def message : UsageError → String
  | unknownOption option => "unexpected argument " ++ quoted option ++ " found"
  | missingValue option => "a value is required for " ++ quoted option ++ " but none was supplied"
  | unwantedValue option => quoted option ++ " takes no value"
  | repeatedOption option => "the argument " ++ quoted option ++ " cannot be used multiple times"
  | malformedDefinition text =>
    "invalid value " ++ quoted text ++ ": expected NAME=VALUE, found " ++ quoted text
  | emptyFileName => "the name of the build script is empty"
  | surplusArgument argument => "unexpected argument " ++ quoted argument ++ " found"

end UsageError

namespace Request

/-- The script that runs if none is named. -/
def standardFile : String := "Pilefile"

/-- The options that take a value. -/
inductive ValueOption where
  | definition
  | errorFormat

def ValueOption.text : ValueOption → String
  | definition => "-D <NAME=VALUE>"
  | errorFormat => "--error-format <FMT>"

/-- What was asked for so far. -/
structure Draft where
  file : Option String
  definitions : List (String × String)
  dump : Bool
  errorFormat : Option String
  verbose : Bool

namespace Draft

def empty : Draft := ⟨none, [], false, none, false⟩

def request (draft : Draft) : Request :=
  .run
    { file := draft.file.getD standardFile
      definitions := draft.definitions
      dump := draft.dump
      errorFormat := draft.errorFormat
      verbose := draft.verbose }

/-- Splits at the first equals sign. -/
def splitEquals (text : List Char) : List Char × Option (List Char) :=
  match text.dropWhile (· != '=') with
  | [] => (text, none)
  | _ :: value => (text.takeWhile (· != '='), some value)

/-- Gives a value to an option. A definition needs a name before its equals sign. -/
def give (draft : Draft) (option : ValueOption) (value : String) : Except UsageError Draft :=
  match option with
  | .definition =>
    match splitEquals value.toList with
    | ([], _) | (_, none) => .error (.malformedDefinition value)
    | (name, some text) =>
      let definition := (String.ofList name, String.ofList text)
      .ok { draft with definitions := draft.definitions ++ [definition] }
  | .errorFormat =>
    if draft.errorFormat.isSome then .error (.repeatedOption option.text)
    else .ok { draft with errorFormat := some value }

def setDump (draft : Draft) : Except UsageError Draft :=
  if draft.dump then .error (.repeatedOption "--dump") else .ok { draft with dump := true }

def setVerbose (draft : Draft) : Except UsageError Draft :=
  if draft.verbose then .error (.repeatedOption "--verbose") else .ok { draft with verbose := true }

def setFile (draft : Draft) (file : String) : Except UsageError Draft :=
  if draft.file.isSome then .error (.surplusArgument file)
  else if file.isEmpty then .error .emptyFileName
  else .ok { draft with file := some file }

end Draft

/-- Where an argument leaves the reader. -/
inductive Progress where
  | next (draft : Draft)
  /-- The next argument is the value of an option. -/
  | awaiting (draft : Draft) (option : ValueOption)
  | done (request : Request)

/-- Reads the letters after a single dash. What follows the letter of an option that takes a value
is that value, less an equals sign at its front. -/
def readLetters (draft : Draft) : List Char → Except UsageError Progress
  | [] => .ok (.next draft)
  | 'v' :: rest => do readLetters (← draft.setVerbose) rest
  | 'V' :: _ => .ok (.done .version)
  | 'h' :: _ => .ok (.done .help)
  | 'D' :: [] => .ok (.awaiting draft .definition)
  | 'D' :: '=' :: value => (draft.give .definition (String.ofList value)).map .next
  | 'D' :: value => (draft.give .definition (String.ofList value)).map .next
  | letter :: _ => .error (.unknownOption (String.ofList ['-', letter]))

/-- Reads an option without a value. -/
def readFlag (draft : Draft) (name : String) : Except UsageError Progress :=
  match name with
  | "dump" => draft.setDump.map .next
  | "verbose" => draft.setVerbose.map .next
  | "version" => .ok (.done .version)
  | "help" => .ok (.done .help)
  | _ => .error (.unknownOption ("--" ++ name))

/-- Reads what follows a double dash. -/
def readLong (draft : Draft) (text : List Char) : Except UsageError Progress :=
  let (name, value) := Draft.splitEquals text
  let name := String.ofList name
  match name, value with
  | "error-format", none => .ok (.awaiting draft .errorFormat)
  | "error-format", some value => (draft.give .errorFormat (String.ofList value)).map .next
  | name, none => readFlag draft name
  | name, some _ =>
    match readFlag draft name with
    | .error (.unknownOption option) => .error (.unknownOption option)
    | _ => .error (.unwantedValue ("--" ++ name))

def readArgument (draft : Draft) (argument : String) : Except UsageError Progress :=
  match argument.toList with
  | '-' :: '-' :: text => readLong draft text
  | '-' :: letter :: letters => readLetters draft (letter :: letters)
  | _ => (draft.setFile argument).map .next

/-- Whether an argument cannot be the value of the option before it. -/
def namesOption (argument : String) : Bool :=
  match argument.toList with
  | '-' :: _ :: _ => true
  | _ => false

/-- Reads arguments none of which names options. -/
def readOperands (draft : Draft) : List String → Except UsageError Request
  | [] => .ok draft.request
  | file :: rest => do readOperands (← draft.setFile file) rest

def readFrom (draft : Draft) : List String → Except UsageError Request
  | [] => .ok draft.request
  | argument :: rest =>
    if argument == "--" then readOperands draft rest
    else
      match readArgument draft argument with
      | .error e => .error e
      | .ok (.done request) => .ok request
      | .ok (.next draft) => readFrom draft rest
      | .ok (.awaiting draft option) =>
        match rest with
        | [] => .error (.missingValue option.text)
        | value :: rest =>
          if namesOption value then .error (.missingValue option.text)
          else
            match draft.give option value with
            | .error e => .error e
            | .ok draft => readFrom draft rest

/-- Reads the arguments of a command line. -/
def ofArguments (arguments : List String) : Except UsageError Request :=
  readFrom .empty arguments

end Request

end BuildScript
