import Instrumentation.Settings
import Instrumentation.Toml.Document

/-!
# Settings files

Settings are written in TOML, under the names that also stand in stored
settings. What is left out has its default and what is unknown is passed over.
The fields of a table may also be given as an array, in the order of their
declaration.

Sections: §1 fields · §2 settings · §3 texts.
-/

namespace Instrumentation

namespace Toml

/-! ## §1  Fields -/

/-- The fields of a table, by name. A date has none of them. -/
def Value.fields? (names : List String) : Value → Option Table
  | .table _ members => some members
  | .array items => some (names.zip items)
  | .tables earlier last =>
      some (names.zip ((earlier ++ [last]).map (.table .header)))
  | .date => some []
  | _ => none

def Value.text? : Value → Option String
  | .text s => some s
  | _ => none

def Value.bool? : Value → Option Bool
  | .bool b => some b
  | _ => none

def Value.texts? : Value → Option (List String)
  | .array items => items.mapM Value.text?
  | _ => none

/-- A field, which has its usual value if it is left out. -/
def Table.field? {α : Type} (t : Table) (name : String) (usual : α)
    (content : Value → Option α) : Option α :=
  match t.find? name with
  | some v => content v
  | none => some usual

end Toml

/-! ## §2  Settings -/

def LoggerPattern.ofToml? (v : Toml.Value) : Option LoggerPattern := do
  let usual : LoggerPattern := {}
  let fields ← v.fields? ["namespace", "name"]
  return {
    space := ← fields.field? "namespace" usual.space Toml.Value.text?
    name := ← fields.field? "name" usual.name Toml.Value.text? }

def MethodPattern.ofToml? (v : Toml.Value) : Option MethodPattern := do
  let usual : MethodPattern := {}
  let fields ← v.fields? ["namespace", "declaring_type", "method", "parameters"]
  return {
    space := ← fields.field? "namespace" usual.space Toml.Value.text?
    declaringType := ← fields.field? "declaring_type" usual.declaringType
      Toml.Value.text?
    method := ← fields.field? "method" usual.method Toml.Value.text?
    parameters := ← fields.field? "parameters" usual.parameters Toml.Value.texts? }

def Settings.ofToml? (t : Toml.Table) : Option Settings := do
  let usual : Settings := {}
  return {
    exitLogging := ← t.field? "exit_logging" usual.exitLogging Toml.Value.bool?
    exitMessage := ← t.field? "exit_message" usual.exitMessage Toml.Value.text?
    scanModules := ← t.field? "scan_modules" usual.scanModules Toml.Value.texts?
    loggerField := ← t.field? "logger_field" usual.loggerField LoggerPattern.ofToml?
    loggingCallable := ← t.field? "logging_callable" usual.loggingCallable
      MethodPattern.ofToml? }

/-! ## §3  Texts -/

inductive SettingsError where
  | inaccessible
  | malformed
  | invalid (fault : SettingsFault)
deriving DecidableEq

def Settings.checked (s : Settings) : Except SettingsError Settings :=
  match s.fault? with
  | some fault => .error (.invalid fault)
  | none => .ok s

def Settings.ofText (s : String) : Except SettingsError Settings :=
  match (Toml.read? s).bind Settings.ofToml? with
  | some settings => settings.checked
  | none => .error .malformed

end Instrumentation
