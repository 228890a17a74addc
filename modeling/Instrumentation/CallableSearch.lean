import Instrumentation.Report
import Instrumentation.Resolution
import Instrumentation.Settings

/-!
# The logging method

The modules that a module refers to are searched, in order, for a method of the
pattern's shape: declared in the pattern's type, static, not generic, of the
pattern's name, its leading parameters of the pattern's types. The first one
found is taken. A reference that does not resolve costs a warning and nothing
else.

Sections: §1 the shape · §2 one module · §3 the search.
-/

namespace Instrumentation

/-! ## §1  The shape -/

namespace MethodPattern

variable {β : Type}

/-- Whether parameters begin with the types of these names. -/
def parametersFit (names : List String) (params : List ParamDef) : Bool :=
  names.length ≤ params.length
    && (params.zip names).all (fun (param, name) => param.paramType.fullName == name)

def fits (p : MethodPattern) (m : MethodDef β) : Bool :=
  m.isStatic && !m.isGeneric && m.name == p.method &&
    parametersFit p.parameters m.params

end MethodPattern

/-! ## §2  One module -/

def Module.methodRef {β : Type} (m : Module β) (t : TypeDef β)
    (method : MethodDef β) : MethodRef :=
  { scope? := some m.name
    declaringType := t.receiverType
    name := method.name
    hasThis := !method.isStatic
    params := method.paramTypes
    returnType := method.returnType
    genericArgs := [] }

/-- The first method of the pattern's shape in a module. -/
def Module.callable? {β : Type} (m : Module β) (p : MethodPattern) :
    Option MethodRef :=
  (m.types.filter (fun t =>
      t.space == p.space && t.name == p.declaringType)).findSome? fun t =>
    (t.methods.find? p.fits).map (m.methodRef t)

/-! ## §3  The search -/

/-- No module that is referred to has the logging method. -/
inductive CallableError where
  | notFound (signature : String)
deriving DecidableEq

def CallableError.message : CallableError → String
  | notFound signature => "Could not locate non-generic " ++ signature

/-- Searches references in order; the diagnostics go to the end of a report. -/
def searchCallable {m : Type → Type} [Monad m]
    (resolve : ModuleReference → m Resolution) (p : MethodPattern) :
    List ModuleReference → Report → m (Except CallableError MethodRef × Report)
  | [], report => return (.error (.notFound p.signature), report)
  | r :: rs, report => do
    match ← resolve r with
    | .error e =>
      searchCallable resolve p rs
        (report.raise .warning ("Skipping reference " ++ r.name ++ ": " ++ e.message))
    | .ok found =>
      match found.callable? p with
      | some callable =>
        return (.ok callable,
          report.raise .info ("Found correct " ++ p.method ++
            " method in " ++ found.name))
      | none => searchCallable resolve p rs report

end Instrumentation
