import Instrumentation.Module
import Instrumentation.Stored.Body
import Instrumentation.Json.Writer

/-!
# Stored modules

A module on disk holds stored bodies. Loading one gives every body a list of its
own, numbered from a first identity on in the order of the bodies.

Sections: §1 storing and loading · §2 writing · §3 reading · §4 texts.
-/

namespace Instrumentation

open Json

/-! ## §1  Storing and loading -/

def Module.toStored (m : Module Body) : Module StoredBody := m.map Body.toStored

/-- Loads the body of a method; also the next identity that is free. -/
def MethodDef.ofStored (next : Nat) (m : MethodDef StoredBody) :
    Except BodyError (MethodDef Body × Nat) :=
  match m.body? with
  | none => .ok (m.withBody none, next)
  | some s => do
    let b ← Body.ofStored next s
    return (m.withBody (some b), next + 1)

def MethodDef.listOfStored (next : Nat) :
    List (MethodDef StoredBody) → Except BodyError (List (MethodDef Body) × Nat)
  | [] => .ok ([], next)
  | m :: ms => do
    let (m, next) ← m.ofStored next
    let (ms, next) ← listOfStored next ms
    return (m :: ms, next)

def TypeDef.ofStored (next : Nat) (t : TypeDef StoredBody) :
    Except BodyError (TypeDef Body × Nat) := do
  let (methods, next) ← MethodDef.listOfStored next t.methods
  return (t.withMethods methods, next)

def TypeDef.listOfStored (next : Nat) :
    List (TypeDef StoredBody) → Except BodyError (List (TypeDef Body) × Nat)
  | [] => .ok ([], next)
  | t :: ts => do
    let (t, next) ← t.ofStored next
    let (ts, next) ← listOfStored next ts
    return (t :: ts, next)

/-- Loads a module, its bodies over lists numbered from `next` on. -/
def Module.ofStored (next : Nat) (m : Module StoredBody) :
    Except BodyError (Module Body × Nat) := do
  let (types, next) ← TypeDef.listOfStored next m.types
  return (m.withTypes types, next)

/-! ## §2  Writing -/

namespace Visibility

def all : List Visibility :=
  [privateAccess, familyAndAssembly, assembly, family, familyOrAssembly, publicAccess]

def key : Visibility → String
  | privateAccess => "private"
  | familyAndAssembly => "family_and_assembly"
  | assembly => "assembly"
  | family => "family"
  | familyOrAssembly => "family_or_assembly"
  | publicAccess => "public"

def ofKey? (s : String) : Option Visibility :=
  all.find? (fun v => v.key == s)

end Visibility

def ModuleReference.toJson (r : ModuleReference) : Value :=
  .record (("name", .str r.name) :: textMember "version" r.version?)

def FieldDef.toJson (f : FieldDef) : Value :=
  .record
    [("name", .str f.name), ("field_type", f.fieldType.toJson),
     ("visibility", .str f.visibility.key), ("is_static", .bool f.isStatic),
     ("is_init_only", .bool f.isInitOnly)]

def ParamDef.toJson (p : ParamDef) : Value :=
  .record [("name", .str p.name), ("param_type", p.paramType.toJson)]

def MethodDef.toJson (m : MethodDef StoredBody) : Value :=
  .record
    ([("name", .str m.name), ("visibility", .str m.visibility.key),
        ("is_static", .bool m.isStatic)]
      ++ listMember "generic_params" (m.genericParams.map .str)
      ++ [("params", .array (m.params.map ParamDef.toJson)),
          ("return_type", m.returnType.toJson)]
      ++ (m.body?.map fun b => ("body", b.toJson)).toList)

def TypeDef.toJson (t : TypeDef StoredBody) : Value :=
  .record
    ([("namespace", .str t.space), ("name", .str t.name),
        ("is_value_type", .bool t.isValueType)]
      ++ listMember "generic_params" (t.genericParams.map .str)
      ++ [("fields", .array (t.fields.map FieldDef.toJson)),
          ("methods", .array (t.methods.map MethodDef.toJson))])

def Module.toJson (m : Module StoredBody) : Value :=
  .record
    ([("name", .str m.name)] ++ textMember "core_library" m.coreLibrary?
      ++ [("references", .array (m.references.map ModuleReference.toJson)),
          ("types", .array (m.types.map TypeDef.toJson))])

/-! ## §3  Reading -/

def ModuleReference.decode : Decode ModuleReference :=
  .structure ["name", "version"] fun f =>
    ModuleReference.mk <$> f.required "name" Decode.string
      <*> f.read "version" (some none) (Decode.option Decode.string)

def FieldDef.decode (source : Source) : Decode FieldDef :=
  .structure
    ["name", "field_type", "visibility", "is_static", "is_init_only"] fun f =>
    FieldDef.mk <$> f.required "name" Decode.string
      <*> f.required "field_type" (TypeSig.decode source)
      <*> f.read "visibility" (some .privateAccess) (Decode.name Visibility.ofKey?)
      <*> f.read "is_static" (some false) Decode.bool
      <*> f.read "is_init_only" (some false) Decode.bool

def ParamDef.decode (source : Source) : Decode ParamDef :=
  .structure ["name", "param_type"] fun f =>
    ParamDef.mk <$> f.required "name" Decode.string
      <*> f.required "param_type" (TypeSig.decode source)

def MethodDef.decode (source : Source) : Decode (MethodDef StoredBody) :=
  .structure
    ["name", "visibility", "is_static", "generic_params", "params", "return_type",
      "body"] fun f =>
      MethodDef.mk <$> f.required "name" Decode.string
        <*> f.read "visibility" (some .privateAccess) (Decode.name Visibility.ofKey?)
        <*> f.read "is_static" (some false) Decode.bool
        <*> f.read "generic_params" (some []) (Decode.list Decode.string)
        <*> f.read "params" (some []) (Decode.list (ParamDef.decode source))
        <*> f.read "return_type" (some .void) (TypeSig.decode source)
        <*> f.read "body" (some none) (Decode.option (StoredBody.decode source))

def TypeDef.decode (source : Source) : Decode (TypeDef StoredBody) :=
  .structure
    ["namespace", "name", "is_value_type", "generic_params", "fields",
      "methods"] fun f =>
    TypeDef.mk <$> f.read "namespace" (some "") Decode.string
      <*> f.required "name" Decode.string
      <*> f.read "is_value_type" (some false) Decode.bool
      <*> f.read "generic_params" (some []) (Decode.list Decode.string)
      <*> f.read "fields" (some []) (Decode.list (FieldDef.decode source))
      <*> f.read "methods" (some []) (Decode.list (MethodDef.decode source))

def Module.decode (source : Source) : Decode (Module StoredBody) :=
  .structure ["name", "core_library", "references", "types"] fun f =>
    Module.mk <$> f.required "name" Decode.string
      <*> f.read "core_library" (some none) (Decode.option Decode.string)
      <*> f.read "references" (some []) (Decode.list ModuleReference.decode)
      <*> f.read "types" (some []) (Decode.list (TypeDef.decode source))

/-! ## §4  Texts -/

def Module.toText (m : Module StoredBody) : String := write m.toJson

def Module.ofText (s : String) : Except Fault (Module StoredBody) :=
  decodeText (Module.decode .text) s

end Instrumentation
