import Instrumentation.Instruction
import Instrumentation.Stored.TypeSig

/-!
# Stored instructions

Member references, operands and instructions as JSON. How a branch target is
stored is a parameter: a stored body writes positions.
-/

namespace Instrumentation

open Json

/-! ## §1  Writing -/

/-- The member for a list, left out when the list is empty. -/
def listMember (key : String) (items : List Value) : List (String × Value) :=
  if items.isEmpty then [] else [(key, .array items)]

def textMember (key : String) : Option String → List (String × Value)
  | none => []
  | some s => [(key, .str s)]

def FieldRef.toJson (f : FieldRef) : Value :=
  .record
    [("declaring_type", f.declaringType.toJson), ("name", .str f.name),
     ("field_type", f.fieldType.toJson)]

def MethodRef.toJson (m : MethodRef) : Value :=
  .record
    (textMember "scope" m.scope?
      ++ [("declaring_type", m.declaringType.toJson), ("name", .str m.name),
        ("has_this", .bool m.hasThis),
        ("params", .array (TypeSig.listToJson m.params)),
        ("return_type", m.returnType.toJson)]
      ++ listMember "generic_args" (TypeSig.listToJson m.genericArgs))

variable {ρ : Type}

def Operand.toJson (target : ρ → Value) : Operand ρ → Value
  | .none => .str "none"
  | .int32 v => .tagged "int32" (.int v.toInt)
  | .int64 v => .tagged "int64" (.int v.toInt)
  | .float64 x => .tagged "float64" (.number (some (.real x)))
  | .string s => .tagged "string" (.str s)
  | .arg i => .tagged "arg" (.nat i.toNat)
  | .local i => .tagged "local" (.nat i.toNat)
  | .type t => .tagged "type" t.toJson
  | .field f => .tagged "field" f.toJson
  | .method m => .tagged "method" m.toJson
  | .target t => .tagged "target" (target t)
  | .switch ts => .tagged "switch" (.array (ts.map target))

def Instruction.toJson (target : ρ → Value) (i : Instruction ρ) : Value :=
  .record
    (("op", .str i.op.key) ::
      (if i.operand.shape = .none then []
        else [("operand", i.operand.toJson target)]))

/-! ## §2  Reading -/

def FieldRef.decode (source : Source) : Decode FieldRef :=
  .structure ["declaring_type", "name", "field_type"] fun f =>
    FieldRef.mk <$> f.required "declaring_type" (TypeSig.decode source)
      <*> f.required "name" Decode.string
      <*> f.required "field_type" (TypeSig.decode source)

def MethodRef.decode (source : Source) : Decode MethodRef :=
  .structure
    ["scope", "declaring_type", "name", "has_this", "params", "return_type",
      "generic_args"] fun f =>
      MethodRef.mk <$> f.read "scope" (some none) (Decode.option Decode.string)
        <*> f.required "declaring_type" (TypeSig.decode source)
        <*> f.required "name" Decode.string
        <*> f.read "has_this" (some false) Decode.bool
        <*> f.read "params" (some []) (Decode.list (TypeSig.decode source))
        <*> f.required "return_type" (TypeSig.decode source)
        <*> f.read "generic_args" (some []) (Decode.list (TypeSig.decode source))

def Operand.decode (source : Source) (target : Decode ρ) : Decode (Operand ρ) :=
  fun room v =>
    match variant? room v with
    | some (.plain "none") => .ok .none
    | some (.carrying tag room content) =>
      match tag with
      | "none" => (match content with | .null => .ok .none | _ => .error .malformed)
      | "int32" => (Decode.int32 room content).map .int32
      | "int64" => (Decode.int64 room content).map .int64
      | "float64" => (Decode.float64 room content).map .float64
      | "string" => (Decode.string room content).map .string
      | "arg" => (Decode.uint16 room content).map .arg
      | "local" => (Decode.uint16 room content).map .local
      | "type" => (TypeSig.decode source room content).map .type
      | "field" => (FieldRef.decode source room content).map .field
      | "method" => (MethodRef.decode source room content).map .method
      | "target" => (target room content).map .target
      | "switch" => (Decode.list target room content).map .switch
      | _ => .error .malformed
    | _ => .error .malformed

def Instruction.decode (source : Source) (target : Decode ρ) :
    Decode (Instruction ρ) :=
  .structure ["op", "operand"] fun f =>
    Instruction.mk <$> f.required "op" (Decode.name Opcode.ofKey?)
      <*> f.read "operand" (some .none) (Operand.decode source target)

def decodePosition : Decode Nat := Decode.nat (UInt32.size - 1)

end Instrumentation
