import BuildScript.Eval.Storage
import BuildScript.Files.Listing
import BuildScript.Text.Escape
import BuildScript.Value.Arguments

/-!
The built-in functions. Each checks its own arguments, those of file functions before anything is
touched. A file operation that fails gives false; only reading a file or its time is an error.
-/

namespace BuildScript.Eval

/-- Runs a text as a file of the given name. Its first act is to clear the error flag, and the
result says whether the flag stayed down. -/
def runSource (name text : String) : Eval Bool := do
  update fun m => { m with file := name, line := 0, errorFlag := false, lastIf := none }
  match ← attempt (runBody (Text.SourceLine.split text) false) with
  | .error fault => report fault
  | .ok _ => pure ()
  return !(← machine).errorFlag

/-- Runs another file among the names of the running one, which goes on afterwards where it
stood. -/
def includeFile (path : String) : Eval Bool := do
  let m ← machine
  if m.includeDepth ≥ m.options.maxIncludeDepth then
    raise (.includeDepthExceeded m.options.maxIncludeDepth)
  else
    match m.files.readText (m.scriptPath path) with
    | .error e => raise (.io path e.message)
    | .ok text =>
      update fun m => { m with includeDepth := m.includeDepth + 1 }
      let ok ← runSource (m.scriptPath path) text
      update fun after =>
        { after with
          includeDepth := after.includeDepth - 1
          file := m.file
          line := m.line
          errorFlag := m.errorFlag
          lastIf := m.lastIf }
      return ok

/-- The text a value prints as. Text from outside the script has its escapes resolved here. -/
def printedText (args : List Value) : Except EvalError String := do
  match ← Arguments.value args 0 with
  | .macroText text => return Text.unescapeLenient text
  | value => return value.text

/-- Hands the printed text of the argument to the machine. -/
def printing (args : List Value) (act : Machine → String → Machine) : Eval Value := do
  let text ← printedText args
  update (act · text)
  return .nothing

/-- Whether a name is bound, or names a built-in function or a class. -/
def isKnown (m : Machine) (name : String) : Bool :=
  (m.env.scopes.lookup name).isSome || (Builtin.ofName? name).isSome ||
    (m.classes.find? name).isSome

/-- Whether the argument is defined: a bound name, the text of a known name, or any value. -/
def isDefined : List Operand → Eval Value
  | [] => raise .noValue
  | .reference _ :: _ => return .bool true
  | .temporary value _ :: _ =>
    match value with
    | .void name => if name.isEmpty then raise .noValue else return .bool false
    | .string name => return .bool (isKnown (← machine) name)
    | _ => return .bool true

/-- Performs a file operation and tells whether it succeeded. -/
def fileOperation (operation : FileSystem → FileSystem × Option IoError) : Eval Value := do
  let (files, failure) := operation (← machine).files
  update fun m => { m with files }
  return .bool failure.isNone

/-- A file operation on the path its first argument names. -/
def pathOperation (builtin : Builtin) (args : List Value)
    (operation : FileSystem → String → FileSystem × Option IoError) : Eval Value := do
  let path ← Arguments.text builtin.name args 0
  let m ← machine
  fileOperation fun files => operation files (m.scriptPath path)

/-- A file operation from one path to another. -/
def transfer (builtin : Builtin) (args : List Value)
    (operation : FileSystem → String → String → FileSystem × Option IoError) : Eval Value := do
  let source ← Arguments.text builtin.name args 0
  let destination ← Arguments.text builtin.name args 1
  let m ← machine
  fileOperation fun files => operation files (m.scriptPath source) (m.scriptPath destination)

def changeMode (args : List Value) : Eval Value := do
  let path ← Arguments.text Builtin.changeMode.name args 0
  let mode ← Arguments.int Builtin.changeMode.name args 1
  let m ← machine
  if mode < 0 then return .bool false
  else fileOperation fun files => files.setMode (m.scriptPath path) mode.toInt.toNat

/-- The files a pattern names. -/
def listFiles (args : List Value) : Eval Value := do
  let pattern ← Arguments.text Builtin.listFiles.name args 0
  let m ← machine
  return .array .string ((Listing.listed m.files.list m.file pattern).map .string)

def modificationTime (args : List Value) : Eval Value := do
  let path ← Arguments.text Builtin.modificationTime.name args 0
  let m ← machine
  match m.files.modified (m.scriptPath path) with
  | .error e => raise (.io path e.message)
  | .ok seconds =>
    if seconds < 0 then raise (.io path "second time provided was later than self")
    else return .int (← Eval.ofExcept (Integer.ofCount seconds.toNat))

def runBuiltin (builtin : Builtin) (operands : List Operand) : Eval Value := do
  let args := operands.map (valueIn (← machine))
  let cast (target : DataType) : Eval Value :=
    Eval.ofExcept (do (← Arguments.value args 0).convert target)
  match builtin with
  | .print => printing args Machine.print
  | .printLine =>
    if args.isEmpty then do
      update (·.print "\n")
      return .nothing
    else printing args fun m text => m.print (text ++ "\n")
  | .warning => printing args Machine.warn
  | .error => printing args Machine.reportMessage
  | .debug => printing args fun m text => m.emit (.debug text)
  | .typeOf => return .string (← Eval.ofExcept (Arguments.value args 0)).type.text
  | .castString => return .string (← Eval.ofExcept (Arguments.value args 0)).text
  | .castBool => cast .bool
  | .castInt => cast .int
  | .castFloat => cast .float
  | .includeFile => do
    let path ← Arguments.text builtin.name args 0
    return .bool (← includeFile path)
  | .listFiles => listFiles args
  | .defined => isDefined operands
  | .copyFile => transfer builtin args FileSystem.copy
  | .moveFile => transfer builtin args FileSystem.move
  | .deleteFile => pathOperation builtin args FileSystem.remove
  | .makeDir => pathOperation builtin args FileSystem.makeDirectory
  | .makePath => pathOperation builtin args FileSystem.makePath
  | .makeFile => pathOperation builtin args FileSystem.touch
  | .changeMode => changeMode args
  | .modificationTime => modificationTime args

/-- Calls a built-in function after counting its arguments. -/
def callBuiltin (builtin : Builtin) (args : List Operand) : Eval Operand := do
  if builtin.accepts args.length then return .ofValue (← runBuiltin builtin args)
  else raise (.argumentCount builtin.name builtin.arity args.length)

end BuildScript.Eval
