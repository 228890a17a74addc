import Instrumentation.Instruction

/-!
# Reports

What a pass did: the logging method it found, the methods it instrumented and
those it had to skip, and the diagnostics in the order in which they were
raised.
-/

namespace Instrumentation

inductive Severity where
  | info
  | warning
  | error
deriving DecidableEq

structure Diagnostic where
  level : Severity
  message : String
deriving DecidableEq

structure InstrumentedMethod where
  typeName : String
  method : String
  entry : Bool
  exitSites : Nat
deriving DecidableEq

/-- A method left as it was because its instrumentation failed. -/
structure SkippedMethod where
  typeName : String
  method : String
  reason : String
deriving DecidableEq

structure Report where
  callable? : Option MethodRef := none
  instrumented : List InstrumentedMethod := []
  skipped : List SkippedMethod := []
  diagnostics : List Diagnostic := []
deriving DecidableEq

namespace Report

def raise (r : Report) (level : Severity) (message : String) : Report :=
  { r with diagnostics := r.diagnostics ++ [⟨level, message⟩] }

def skip (r : Report) (m : SkippedMethod) : Report :=
  { r with skipped := r.skipped ++ [m] }

def instrument (r : Report) (m : InstrumentedMethod) : Report :=
  { r with instrumented := r.instrumented ++ [m] }

def hasErrors (r : Report) : Bool := r.diagnostics.any (·.level == .error)

def messages (r : Report) (level : Severity) : List String :=
  (r.diagnostics.filter (·.level == level)).map (·.message)

end Report

end Instrumentation
