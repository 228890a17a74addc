import Instrumentation.Stored.Module

/-!
# Resolving references

A module names the modules it refers to; a resolver turns such a name into a
module or says why it cannot. Resolving may change the resolver, as reading a
file into a store of loaded modules does, so the searches over references ask
for an answer in any monad. Bodies play no part in what is looked for, so a
resolver holds modules as they are stored.

Sections: §1 failures · §2 modules at hand.
-/

namespace Instrumentation

/-! ## §1  Failures -/

/-- Why a module file could not be read or written. The cause is told in the
words of the system or of the JSON reader; they are implicit, as nothing but a
message looks at them. -/
inductive ModuleError where
  | inaccessible {cause : String}
  | invalid (fault : Json.Fault) {cause : String}
deriving DecidableEq

def ModuleError.message : ModuleError → String
  | @inaccessible cause => "I/O error: " ++ cause
  | @invalid _ cause => "Invalid module JSON: " ++ cause

inductive ResolutionError where
  | notFound (name : String)
  | load (name : String) (cause : ModuleError)
deriving DecidableEq

def ResolutionError.message : ResolutionError → String
  | notFound name => "Module " ++ name ++ " not found"
  | load name cause => "Failed to load module " ++ name ++ ": " ++ cause.message

abbrev Resolution := Except ResolutionError (Module StoredBody)

/-! ## §2  Modules at hand -/

/-- Modules that are at hand, by name; no two have the same. -/
structure ModuleTable where
  modules : List (Module StoredBody)

namespace ModuleTable

def empty : ModuleTable := ⟨[]⟩

/-- Adds a module, in the place of one of its name. -/
def insert (t : ModuleTable) (m : Module StoredBody) : ModuleTable :=
  ⟨m :: t.modules.filter (fun other => other.name != m.name)⟩

def ofList (ms : List (Module StoredBody)) : ModuleTable := ms.foldl insert empty

def size (t : ModuleTable) : Nat := t.modules.length

def find? (t : ModuleTable) (name : String) : Option (Module StoredBody) :=
  t.modules.find? (fun m => m.name == name)

def resolve (t : ModuleTable) (r : ModuleReference) : Resolution :=
  match t.find? r.name with
  | some m => .ok m
  | none => .error (.notFound r.name)

end ModuleTable

end Instrumentation
