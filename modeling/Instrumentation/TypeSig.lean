/-!
# Type signatures

Types are described structurally, the way compiled metadata holds them, and are
written in the full-name form of that metadata (`System.Int32`,
`System.Object[]`, `App.Repository<!0>`), so that patterns over types can be
plain text.

Sections: §1 names and signatures · §2 equality · §3 full names · §4 storage of
a value.
-/

namespace Instrumentation

/-! ## §1  Names and signatures -/

/-- A type's name inside its namespace; the global namespace is the empty text. -/
structure TypeName where
  space : String
  name : String
deriving DecidableEq, Inhabited

inductive Primitive where
  | void | boolean | char
  | int8 | uint8 | int16 | uint16 | int32 | uint32 | int64 | uint64
  | float32 | float64
  | nativeInt | nativeUInt
  | string | object
deriving DecidableEq, Inhabited

/-- A type signature. Generic parameters are numbered by sixteen-bit indices,
those of the enclosing type and those of the enclosing method apart. -/
inductive TypeSig where
  | primitive (type : Primitive)
  | reference (name : TypeName)
  | value (name : TypeName)
  | array (element : TypeSig)
  | generic (definition : TypeName) (isValue : Bool) (args : List TypeSig)
  | typeParam (index : UInt16)
  | methodParam (index : UInt16)
  | byRef (element : TypeSig)
deriving Inhabited

namespace TypeSig

abbrev void : TypeSig := .primitive .void

abbrev string : TypeSig := .primitive .string

abbrev object : TypeSig := .primitive .object

abbrev objects : TypeSig := .array object

/-! ## §2  Equality -/

mutual

def same : TypeSig → TypeSig → Bool
  | .primitive p, .primitive q => p == q
  | .reference m, .reference n => m == n
  | .value m, .value n => m == n
  | .array s, .array t => same s t
  | .generic d v ss, .generic e w ts => d == e && v == w && sameAll ss ts
  | .typeParam i, .typeParam j => i == j
  | .methodParam i, .methodParam j => i == j
  | .byRef s, .byRef t => same s t
  | _, _ => false

def sameAll : List TypeSig → List TypeSig → Bool
  | [], [] => true
  | s :: ss, t :: ts => same s t && sameAll ss ts
  | _, _ => false

end

mutual

theorem same_iff : ∀ s t : TypeSig, same s t = true ↔ s = t
  | .primitive _, t => by cases t <;> simp [same]
  | .reference _, t => by cases t <;> simp [same]
  | .value _, t => by cases t <;> simp [same]
  | .array s, t => by cases t <;> simp [same, same_iff s]
  | .generic _ _ ss, t => by cases t <;> simp [same, sameAll_iff ss, and_assoc]
  | .typeParam _, t => by cases t <;> simp [same]
  | .methodParam _, t => by cases t <;> simp [same]
  | .byRef s, t => by cases t <;> simp [same, same_iff s]

theorem sameAll_iff : ∀ ss ts : List TypeSig, sameAll ss ts = true ↔ ss = ts
  | [], ts => by cases ts <;> simp [sameAll]
  | s :: ss, ts => by cases ts <;> simp [sameAll, same_iff s, sameAll_iff ss]

end

instance : DecidableEq TypeSig := fun s t => decidable_of_iff _ (same_iff s t)

end TypeSig

/-! ## §3  Full names -/

/-- `Namespace.Name`, or the name alone in the global namespace. -/
def TypeName.fullName (n : TypeName) : String :=
  if n.space.isEmpty then n.name else n.space ++ "." ++ n.name

def Primitive.fullName : Primitive → String
  | .void => "System.Void"
  | .boolean => "System.Boolean"
  | .char => "System.Char"
  | .int8 => "System.SByte"
  | .uint8 => "System.Byte"
  | .int16 => "System.Int16"
  | .uint16 => "System.UInt16"
  | .int32 => "System.Int32"
  | .uint32 => "System.UInt32"
  | .int64 => "System.Int64"
  | .uint64 => "System.UInt64"
  | .float32 => "System.Single"
  | .float64 => "System.Double"
  | .nativeInt => "System.IntPtr"
  | .nativeUInt => "System.UIntPtr"
  | .string => "System.String"
  | .object => "System.Object"

namespace TypeSig

mutual

/-- The name in metadata form: `[]` after an element type, `&` after a
pointed-at type, arguments of a generic type in angle brackets, `!n` and `!!n`
for parameters of the type and of the method. -/
def fullName : TypeSig → String
  | .primitive p => p.fullName
  | .reference n | .value n => n.fullName
  | .array e => fullName e ++ "[]"
  | .generic d _ args => d.fullName ++ "<" ++ ",".intercalate (fullNames args) ++ ">"
  | .typeParam i => "!" ++ toString i.toNat
  | .methodParam i => "!!" ++ toString i.toNat
  | .byRef e => fullName e ++ "&"

def fullNames : List TypeSig → List String
  | [] => []
  | t :: ts => fullName t :: fullNames ts

end

def nameList (ts : List TypeSig) : String :=
  ",".intercalate (fullNames ts)

def openDefinition? : TypeSig → Option TypeName
  | .generic d _ _ => some d
  | _ => none

/-- What an array holds or a managed pointer points at. -/
def element? : TypeSig → Option TypeSig
  | .array e | .byRef e => some e
  | _ => none

end TypeSig

/-! ## §4  Storage of a value -/

/-- How a value comes to be an object reference: by boxing, or because it is one. -/
inductive Storage where
  | value
  | reference
deriving DecidableEq

/-- The kind of value that fills one place of the operand stack. Booleans,
characters and the small integers are 32-bit integers there; null, strings and
arrays are object references. -/
inductive StackKind where
  | int32 | int64 | nativeInt | float | objectRef | managedPtr | value
deriving DecidableEq

namespace TypeSig

/-- Whether a value of this type lies on the stack unboxed. A generic parameter
answers no, its instantiation being unknown. -/
def isValueType : TypeSig → Bool
  | .primitive p => !(p == .void || p == .string || p == .object)
  | .value _ => true
  | .generic _ isValue _ => isValue
  | _ => false

def isGenericParam : TypeSig → Bool
  | .typeParam _ | .methodParam _ => true
  | _ => false

/-- How a value of this type becomes an object reference. Boxing does nothing to
a generic parameter that stands for a reference type and is needed for one that
stands for a value type, so parameters are boxed; a managed pointer is judged by
what it points at. -/
def storage : TypeSig → Storage
  | .byRef e => storage e
  | t => if t.isValueType || t.isGenericParam then .value else .reference

def stackKind : TypeSig → StackKind
  | .primitive .boolean | .primitive .char
  | .primitive .int8 | .primitive .uint8 | .primitive .int16 | .primitive .uint16
  | .primitive .int32 | .primitive .uint32 => .int32
  | .primitive .int64 | .primitive .uint64 => .int64
  | .primitive .nativeInt | .primitive .nativeUInt => .nativeInt
  | .primitive .float32 | .primitive .float64 => .float
  | .byRef _ => .managedPtr
  | t => if t.isValueType || t.isGenericParam then .value else .objectRef

end TypeSig

namespace StackKind

/-- Whether a value of kind `found` may go where this kind is wanted. The two
integer kinds of a machine word go for one another, and a value of unknown type
takes anything but a pointer. -/
def accepts : StackKind → StackKind → Bool
  | .int32, found | .nativeInt, found => found == .int32 || found == .nativeInt
  | .value, found => found != .managedPtr
  | wanted, found => wanted == found

def text : StackKind → String
  | .int32 => "int32"
  | .int64 => "int64"
  | .nativeInt => "native int"
  | .float => "float"
  | .objectRef => "object reference"
  | .managedPtr => "managed pointer"
  | .value => "value"

end StackKind

end Instrumentation
