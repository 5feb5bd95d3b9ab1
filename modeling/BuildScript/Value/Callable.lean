import BuildScript.Expr.Basic
import BuildScript.Text.SourceLine

/-!
What a function value runs, procedures and class templates. All of them are immutable; each carries
an identity that tells apart two definitions of the same text.
-/

namespace BuildScript

/-- The functions every script can call. -/
inductive Builtin where
  | print
  | printLine
  | warning
  | error
  | debug
  | typeOf
  | castString
  | castBool
  | castInt
  | castFloat
  | includeFile
  | listFiles
  | defined
  | copyFile
  | moveFile
  | deleteFile
  | makeDir
  | makePath
  | makeFile
  | changeMode
  | modificationTime
  deriving DecidableEq

namespace Builtin

def name : Builtin → String
  | print => "print"
  | printLine => "println"
  | warning => "warning"
  | error => "error"
  | debug => "debug"
  | typeOf => "type"
  | castString => "string"
  | castBool => "bool"
  | castInt => "int"
  | castFloat => "float"
  | includeFile => "include"
  | listFiles => "ls"
  | defined => "defined"
  | copyFile => "copy"
  | moveFile => "move"
  | deleteFile => "delete"
  | makeDir => "mkdir"
  | makePath => "mkpath"
  | makeFile => "mkfile"
  | changeMode => "chmod"
  | modificationTime => "mod_time"

def all : List Builtin :=
  [print, printLine, warning, error, debug, typeOf, castString, castBool, castInt, castFloat,
    includeFile, listFiles, defined, copyFile, moveFile, deleteFile, makeDir, makePath, makeFile,
    changeMode, modificationTime]

def ofName? (name : String) : Option Builtin := all.find? (·.name == name)

/-- The number of arguments the function asks for. -/
def arity : Builtin → Nat
  | copyFile | moveFile | changeMode => 2
  | _ => 1

/-- Whether the function may be called with so many arguments. A line may be printed empty. -/
def accepts (builtin : Builtin) (count : Nat) : Bool :=
  count == builtin.arity || (builtin == printLine && count == 0)

/-- The function that converts to a type. -/
def castTo? : DataType → Option Builtin
  | .string => some castString
  | .bool => some castBool
  | .int => some castInt
  | .float => some castFloat
  | _ => none

end Builtin

/-- Tells definitions apart. -/
abbrev Identity := Nat

/-- Tells objects apart. -/
abbrev ObjectId := Nat

/-- What a native function does: a built-in method, or an entry point of the embedding program. -/
inductive NativeBody where
  | size
  | host (entry : String)
  deriving DecidableEq

structure NativeFunction where
  id : Identity
  name : String
  /-- The number of operands, a receiver included. -/
  arity : Nat
  body : NativeBody
  deriving DecidableEq

/-- The most operands a native function may ask for. -/
def NativeFunction.largestArity : Nat := 5

/-- A function declared in a script. -/
structure UserFunction where
  id : Identity
  name : String
  params : List Parameter
  returnType : DataType
  /-- The lines between the braces. -/
  body : List Text.SourceLine
  file : String
  line : Nat
  isMethod : Bool

/-- A body without parameters and without a result. -/
structure Procedure where
  id : Identity
  name : String
  body : List Text.SourceLine
  file : String
  line : Nat

inductive Callable where
  | builtin (builtin : Builtin)
  | native (native : NativeFunction)
  | user (function : UserFunction)

namespace Callable

def name : Callable → String
  | builtin b => b.name
  | native n => n.name
  | user f => f.name

/-- Whether both are the same definition. -/
def same : Callable → Callable → Bool
  | builtin a, builtin b => a == b
  | native a, native b => a.id == b.id
  | user a, user b => a.id == b.id
  | _, _ => false

end Callable

structure Field where
  type : DataType
  name : String
  deriving DecidableEq

/-- A named class with its fields and methods in declaration order. -/
structure ClassTemplate where
  id : Identity
  name : String
  fields : List Field
  methods : List (String × Callable)

/-- The entry of a name in a list in declaration order; the first one counts. -/
def lookupName {α : Type} (name : String) (entries : List (String × α)) : Option α :=
  (entries.find? (·.1 == name)).map (·.2)

def ClassTemplate.method? (template : ClassTemplate) (name : String) : Option Callable :=
  lookupName name template.methods

end BuildScript
