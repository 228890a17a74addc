import Instrumentation.TypeSig

/-!
# Settings

What a pass looks for and what it writes. Every setting has a default, so no
settings at all mean the usual logger field, the usual logging method and entry
logging alone.

Sections: §1 patterns · §2 settings · §3 validity · §4 signatures in messages.
-/

namespace Instrumentation

/-! ## §1  Patterns -/

/-- The open generic type of which the field that carries the logger is an
instance. -/
structure LoggerPattern where
  space : String := "Microsoft.Extensions.Logging"
  name : String := "ILogger`1"
deriving DecidableEq

/-- The static method that writes a log entry: the type it is declared in, its
name and the full names of its leading parameters. -/
structure MethodPattern where
  space : String := "Microsoft.Extensions.Logging"
  declaringType : String := "LoggerExtensions"
  method : String := "LogInformation"
  parameters : List String :=
    ["Microsoft.Extensions.Logging.ILogger", "System.String", "System.Object[]"]
deriving DecidableEq

def LoggerPattern.fits (p : LoggerPattern) (t : TypeSig) : Bool :=
  match t.openDefinition? with
  | some d => d.space == p.space && d.name == p.name
  | none => false

/-! ## §2  Settings -/

/-- The modules that type information is looked for in. -/
def usualScanModules : List String :=
  ["netstandard", "mscorlib", "Microsoft.Extensions.Logging",
    "Microsoft.Extensions.Logging.Abstractions"]

structure Settings where
  /-- Whether a call stands before every return, too. -/
  exitLogging : Bool := false
  exitMessage : String := "Method exit"
  /-- The modules searched for the type of arrays. -/
  scanModules : List String := usualScanModules
  loggerField : LoggerPattern := {}
  loggingCallable : MethodPattern := {}
deriving DecidableEq

/-! ## §3  Validity -/

inductive SettingsFault where
  | noMethodName
  | noDeclaringType
  | noParameters (method : String)
  | noFieldTypeName
deriving DecidableEq

def SettingsFault.message : SettingsFault → String
  | noMethodName => "Invalid config: Logging method name cannot be empty"
  | noDeclaringType => "Invalid config: Logging declaring type cannot be empty"
  | noParameters method =>
    "Invalid config: Logging method " ++ method ++
      " must match at least one parameter"
  | noFieldTypeName => "Invalid config: Logger field type name cannot be empty"

def Settings.fault? (s : Settings) : Option SettingsFault :=
  if s.loggingCallable.method.isEmpty then some .noMethodName
  else if s.loggingCallable.declaringType.isEmpty then some .noDeclaringType
  else if s.loggingCallable.parameters.isEmpty then
    some (.noParameters s.loggingCallable.method)
  else if s.loggerField.name.isEmpty then some .noFieldTypeName
  else none

/-! ## §4  Signatures in messages -/

/-- The name of a type without its namespace; the commonest types go by their
keywords. -/
def briefName (fullName : String) : String :=
  let (base, suffix) := match fullName.toList.reverse with
    | ']' :: '[' :: rev => (String.ofList rev.reverse, "[]")
    | _ => (fullName, "")
  let short :=
    if base = "System.String" then "string"
    else if base = "System.Object" then "object"
    else if base = "System.Int32" then "int"
    else if base = "System.Boolean" then "bool"
    else String.ofList (base.toList.reverse.takeWhile (· ≠ '.')).reverse
  short ++ suffix

/-- `Type.Method(parameter, …)`, with short names. -/
def MethodPattern.signature (p : MethodPattern) : String :=
  p.declaringType ++ "." ++ p.method ++ "(" ++
    ", ".intercalate (p.parameters.map briefName) ++ ")"

end Instrumentation
