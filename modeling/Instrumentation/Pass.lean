import Instrumentation.CallableSearch
import Instrumentation.LoggerField
import Instrumentation.Plan

/-!
# A pass

One pass over a module finds the logging method and, if returns are logged, the
factory of empty arrays; then it instruments every instance method with a body,
constructors apart, of every type that has a logger field. A pass never fails as
a whole: what it could not do is in its report, and a method that could not be
instrumented stays as it was. Two passes instrument twice.

Sections: §1 methods · §2 types · §3 modules.
-/

namespace Instrumentation

/-! ## §1  Methods -/

def MethodDef.isEligible {β : Type} (m : MethodDef β) : Bool :=
  !m.isConstructor && !m.isStatic && m.hasBody

inductive Outcome where
  | passedOver
  | instrumented (m : InstrumentedMethod)
  | skipped (m : SkippedMethod)
deriving DecidableEq

/-- What all methods of a pass have in common. -/
structure LogCalls where
  callable : MethodRef
  exit : ExitLogging

def MethodDef.instrument (m : MethodDef Body) (calls : LogCalls) (typeName : String)
    (logger : FieldRef) : MethodDef Body × Outcome :=
  if m.isEligible then
    match m.plan logger calls.callable calls.exit with
    | .error e => (m, .skipped ⟨typeName, m.name, e.message⟩)
    | .ok plan =>
      match m.apply plan with
      | (.ok exitSites, done) =>
          (done, .instrumented ⟨typeName, m.name, true, exitSites⟩)
      | (.error e, left) => (left, .skipped ⟨typeName, m.name, e.message⟩)
  else (m, .passedOver)

/-! ## §2  Types -/

/-- Instruments the methods of a type, if it has a logger field. -/
def TypeDef.instrument (t : TypeDef Body) (calls : LogCalls)
    (pattern : LoggerPattern) : TypeDef Body × List Outcome :=
  match t.loggerField? pattern with
  | none => (t, [])
  | some field =>
    let done :=
      t.methods.map fun m => m.instrument calls t.fullName (t.ownFieldRef field)
    (t.withMethods (done.map (·.1)), done.map (·.2))

def Report.record (r : Report) : Outcome → Report
  | .passedOver => r
  | .instrumented m => r.instrument m
  | .skipped m => r.skip m

/-! ## §3  Modules -/

/-- Instruments the types of a module and reports on its methods in their order. -/
def Module.instrument (home : Module Body) (calls : LogCalls)
    (pattern : LoggerPattern) (report : Report) : Module Body × Report :=
  let done := home.types.map fun t => t.instrument calls pattern
  (home.withTypes (done.map (·.1)), (done.flatMap (·.2)).foldl Report.record report)

def Module.pass {m : Type → Type} [Monad m] (resolve : ModuleReference → m Resolution)
    (s : Settings) (home : Module Body) : m (Module Body × Report) := do
  match ← searchCallable resolve s.loggingCallable home.references {} with
  | (.error e, report) => return (home, report.raise .warning e.message)
  | (.ok callable, report) =>
    let report := { report with callable? := some callable }
    if s.exitLogging then
      match ← searchEmptyArray resolve home s.scanModules with
      | .ok emptyArray =>
        return home.instrument
          ⟨callable, .enabled emptyArray s.exitMessage⟩ s.loggerField report
      | .error e =>
        return home.instrument ⟨callable, .unavailable e⟩ s.loggerField
          (report.raise .error e.message)
    else return home.instrument ⟨callable, .disabled⟩ s.loggerField report

end Instrumentation
