import Instrumentation.Body

/-!
# Modules

A module is what a pass works on: its types with their fields and methods, and
the names of the modules it refers to. What stands for a method body is left
open (`β`), since signatures never depend on it: bodies in memory and stored
bodies fit the same definitions.

Sections: §1 members · §2 types · §3 modules · §4 methods seen from their type ·
§5 change of bodies.
-/

namespace Instrumentation

/-! ## §1  Members -/

inductive Visibility where
  | privateAccess
  | familyAndAssembly
  | assembly
  | family
  | familyOrAssembly
  | publicAccess
deriving DecidableEq, Inhabited

structure FieldDef where
  name : String
  fieldType : TypeSig
  visibility : Visibility
  isStatic : Bool
  isInitOnly : Bool
deriving DecidableEq

structure ParamDef where
  name : String
  paramType : TypeSig
deriving DecidableEq

/-- A method; one that is abstract or external has no body. -/
structure MethodDef (β : Type) where
  name : String
  visibility : Visibility
  isStatic : Bool
  genericParams : List String
  params : List ParamDef
  returnType : TypeSig
  body? : Option β
deriving DecidableEq

namespace MethodDef

variable {β : Type}

/-- Whether the method constructs an instance or sets up its type. -/
def isConstructor (m : MethodDef β) : Bool := m.name == ".ctor" || m.name == ".cctor"

def hasBody (m : MethodDef β) : Bool := m.body?.isSome

def isGeneric (m : MethodDef β) : Bool := !m.genericParams.isEmpty

def returnsValue (m : MethodDef β) : Bool := m.returnType != .void

def paramTypes (m : MethodDef β) : List TypeSig := m.params.map (·.paramType)

end MethodDef

/-! ## §2  Types -/

structure TypeDef (β : Type) where
  space : String
  name : String
  isValueType : Bool
  genericParams : List String
  fields : List FieldDef
  methods : List (MethodDef β)
deriving DecidableEq

namespace TypeDef

variable {β : Type}

def typeName (t : TypeDef β) : TypeName := ⟨t.space, t.name⟩

def fullName (t : TypeDef β) : String := t.typeName.fullName

/-- The type as its own methods see it: a generic type is instantiated over its
own parameters. Their number is counted in sixteen bits, as their indices are. -/
def receiverType (t : TypeDef β) : TypeSig :=
  if t.genericParams.isEmpty then
    if t.isValueType then .value t.typeName else .reference t.typeName
  else
    .generic t.typeName t.isValueType
      ((List.range (t.genericParams.length % UInt16.size)).map fun i =>
        .typeParam (UInt16.ofNat i))

def method? (t : TypeDef β) (name : String) : Option (MethodDef β) :=
  t.methods.find? (fun m => m.name == name)

def field? (t : TypeDef β) (name : String) : Option FieldDef :=
  t.fields.find? (fun f => f.name == name)

end TypeDef

/-! ## §3  Modules -/

structure ModuleReference where
  name : String
  version? : Option String
deriving DecidableEq

/-- A module. `coreLibrary?` is the module that defines the base of all objects,
if it is known. -/
structure Module (β : Type) where
  name : String
  coreLibrary? : Option String
  references : List ModuleReference
  types : List (TypeDef β)
deriving DecidableEq

def Module.type? {β : Type} (m : Module β) (space name : String) :
    Option (TypeDef β) :=
  m.types.find? (fun t => t.space == space && t.name == name)

/-! ## §4  Methods seen from their type -/

namespace MethodDef

variable {β γ : Type}

/-- The types of the argument slots; the first is the receiver's unless the
method is static. -/
def argTypes (m : MethodDef β) (declaring : TypeDef γ) : List TypeSig :=
  (if m.isStatic then [] else [declaring.receiverType]) ++ m.paramTypes

/-- `ReturnType DeclaringType::Name(Params)`. -/
def fullName (m : MethodDef β) (declaring : TypeDef γ) : String :=
  m.returnType.fullName ++ " " ++ declaring.fullName ++ "::" ++ m.name
    ++ "(" ++ TypeSig.nameList m.paramTypes ++ ")"

end MethodDef

/-! ## §5  Change of bodies -/

section

variable {β γ ε : Type}

def MethodDef.withBody (m : MethodDef β) (body? : Option γ) : MethodDef γ :=
  { name := m.name, visibility := m.visibility, isStatic := m.isStatic
    genericParams := m.genericParams, params := m.params
    returnType := m.returnType, body? }

def TypeDef.withMethods (t : TypeDef β) (methods : List (MethodDef γ)) : TypeDef γ :=
  { space := t.space, name := t.name, isValueType := t.isValueType
    genericParams := t.genericParams, fields := t.fields, methods }

def Module.withTypes (m : Module β) (types : List (TypeDef γ)) : Module γ :=
  { name := m.name, coreLibrary? := m.coreLibrary?, references := m.references,
    types }

def MethodDef.map (f : β → γ) (m : MethodDef β) : MethodDef γ :=
  m.withBody (m.body?.map f)

def TypeDef.map (f : β → γ) (t : TypeDef β) : TypeDef γ :=
  t.withMethods (t.methods.map (·.map f))

def Module.map (f : β → γ) (m : Module β) : Module γ :=
  m.withTypes (m.types.map (·.map f))

end

end Instrumentation
