import Instrumentation.Resolution

/-!
# The empty array

An exit call passes no arguments, for which it asks the factory of empty arrays.
That is a generic method without parameters of the type of arrays, in the first
of the core library and the scanned modules that resolves and defines this type.
-/

namespace Instrumentation

inductive EmptyArrayError where
  | arrayTypeNotFound
  | emptyMethodNotFound
deriving DecidableEq

def EmptyArrayError.message : EmptyArrayError → String
  | arrayTypeNotFound => "Could not resolve System.Array."
  | emptyMethodNotFound => "Could not find Array.Empty<T>() method."

def withoutRepeats : (seen : List String) → List String → List String
  | _, [] => []
  | seen, s :: rest =>
      if s ∈ seen then withoutRepeats seen rest
      else s :: withoutRepeats (s :: seen) rest

/-- The modules in which the type of arrays may be defined, the core library
first. -/
def Module.arrayCandidates {β : Type} (m : Module β) (scanModules : List String) :
    List String :=
  withoutRepeats [] (m.coreLibrary?.toList ++ scanModules)

/-- The first of some modules that defines the type of arrays, with that type. -/
def searchArrayType {m : Type → Type} [Monad m]
    (resolve : ModuleReference → m Resolution) :
    List String → m (Option (Module StoredBody × TypeDef StoredBody))
  | [] => return none
  | name :: names => do
    match ← resolve ⟨name, none⟩ with
    | .error _ => searchArrayType resolve names
    | .ok found =>
      match found.type? "System" "Array" with
      | some t => return some (found, t)
      | none => searchArrayType resolve names

def MethodDef.isEmptyFactory {β : Type} (m : MethodDef β) : Bool :=
  m.name == "Empty" && m.isGeneric && m.params.isEmpty

/-- The factory in a type of arrays, for arrays of objects. -/
def emptyFactory? (found : Module StoredBody) (t : TypeDef StoredBody) :
    Except EmptyArrayError MethodRef :=
  match t.methods.find? MethodDef.isEmptyFactory with
  | none => .error .emptyMethodNotFound
  | some method =>
    .ok
      { scope? := some found.name
        declaringType := t.receiverType
        name := method.name
        hasThis := false
        params := []
        returnType := method.returnType
        genericArgs := [.object] }

def searchEmptyArray {m : Type → Type} [Monad m] {β : Type}
    (resolve : ModuleReference → m Resolution) (home : Module β)
    (scanModules : List String) : m (Except EmptyArrayError MethodRef) := do
  match ← searchArrayType resolve (home.arrayCandidates scanModules) with
  | none => return .error .arrayTypeNotFound
  | some (found, t) => return emptyFactory? found t

end Instrumentation
