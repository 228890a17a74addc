import Instrumentation.Report
import Instrumentation.Stored.Instruction

/-!
# Stored reports

Reports as JSON, for whoever wants to act on one. They are only ever written.
-/

namespace Instrumentation

open Json

def Severity.key : Severity → String
  | info => "info"
  | warning => "warning"
  | error => "error"

def Diagnostic.toJson (d : Diagnostic) : Value :=
  .record [("level", .str d.level.key), ("message", .str d.message)]

def InstrumentedMethod.toJson (m : InstrumentedMethod) : Value :=
  .record
    [("type_name", .str m.typeName), ("method", .str m.method),
     ("entry", .bool m.entry), ("exit_sites", .nat m.exitSites)]

def SkippedMethod.toJson (m : SkippedMethod) : Value :=
  .record
    [("type_name", .str m.typeName), ("method", .str m.method),
     ("reason", .str m.reason)]

/-- A report without a logging method has null for it. -/
def Report.toJson (r : Report) : Value :=
  .record
    [("callable", (r.callable?.map MethodRef.toJson).getD .null),
     ("instrumented", .array (r.instrumented.map InstrumentedMethod.toJson)),
     ("skipped", .array (r.skipped.map SkippedMethod.toJson)),
     ("diagnostics", .array (r.diagnostics.map Diagnostic.toJson))]

end Instrumentation
