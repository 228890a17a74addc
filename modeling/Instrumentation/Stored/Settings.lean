import Instrumentation.Settings
import Instrumentation.Json.Decode

/-!
# Stored settings

Settings as JSON. A setting that is not given has its default.
-/

namespace Instrumentation

open Json

/-! ## §1  Writing -/

def LoggerPattern.toJson (p : LoggerPattern) : Value :=
  .record [("namespace", .str p.space), ("name", .str p.name)]

def MethodPattern.toJson (p : MethodPattern) : Value :=
  .record
    [("namespace", .str p.space), ("declaring_type", .str p.declaringType),
     ("method", .str p.method), ("parameters", .array (p.parameters.map .str))]

def Settings.toJson (s : Settings) : Value :=
  .record
    [("exit_logging", .bool s.exitLogging), ("exit_message", .str s.exitMessage),
     ("scan_modules", .array (s.scanModules.map .str)),
     ("logger_field", s.loggerField.toJson),
     ("logging_callable", s.loggingCallable.toJson)]

/-! ## §2  Reading -/

def LoggerPattern.decode : Decode LoggerPattern :=
  let usual : LoggerPattern := {}
  .structure ["namespace", "name"] fun f =>
    LoggerPattern.mk <$> f.read "namespace" (some usual.space) Decode.string
      <*> f.read "name" (some usual.name) Decode.string

def MethodPattern.decode : Decode MethodPattern :=
  let usual : MethodPattern := {}
  .structure ["namespace", "declaring_type", "method", "parameters"] fun f =>
    MethodPattern.mk <$> f.read "namespace" (some usual.space) Decode.string
      <*> f.read "declaring_type" (some usual.declaringType) Decode.string
      <*> f.read "method" (some usual.method) Decode.string
      <*> f.read "parameters" (some usual.parameters) (Decode.list Decode.string)

def Settings.decode : Decode Settings :=
  let usual : Settings := {}
  .structure
    ["exit_logging", "exit_message", "scan_modules", "logger_field",
      "logging_callable"] fun f =>
    Settings.mk <$> f.read "exit_logging" (some usual.exitLogging) Decode.bool
      <*> f.read "exit_message" (some usual.exitMessage) Decode.string
      <*> f.read "scan_modules" (some usual.scanModules) (Decode.list Decode.string)
      <*> f.read "logger_field" (some usual.loggerField) LoggerPattern.decode
      <*> f.read "logging_callable" (some usual.loggingCallable) MethodPattern.decode

end Instrumentation
