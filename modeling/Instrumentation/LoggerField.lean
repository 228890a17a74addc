import Instrumentation.Module
import Instrumentation.Settings

/-!
# The logger field

The field that carries the logger is the first private, assign-once instance
field whose type is an instance of the pattern's generic type. A type without
methods has no use for one.
-/

namespace Instrumentation

def FieldDef.carriesLogger (f : FieldDef) (p : LoggerPattern) : Bool :=
  f.visibility == .privateAccess && f.isInitOnly && !f.isStatic && p.fits f.fieldType

namespace TypeDef

variable {β : Type}

def loggerField? (t : TypeDef β) (p : LoggerPattern) : Option FieldDef :=
  if t.methods.isEmpty then none else t.fields.find? (·.carriesLogger p)

def ownFieldRef (t : TypeDef β) (f : FieldDef) : FieldRef :=
  ⟨t.receiverType, f.name, f.fieldType⟩

end TypeDef

end Instrumentation
