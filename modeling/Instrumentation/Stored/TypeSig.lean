import Instrumentation.TypeSig
import Instrumentation.Json.Decode

/-!
# Stored type signatures

A primitive type is stored by its key, every other signature as an object with
one member, whose key says what kind of signature it is.
-/

namespace Instrumentation

open Json

/-! ## §1  Writing -/

def TypeName.toJson (n : TypeName) : Value :=
  .record [("namespace", .str n.space), ("name", .str n.name)]

namespace Primitive

def all : List Primitive :=
  [void, boolean, char, int8, uint8, int16, uint16, int32, uint32, int64, uint64,
    float32, float64, nativeInt, nativeUInt, string, object]

def key : Primitive → String
  | void => "void"
  | boolean => "boolean"
  | char => "char"
  | int8 => "i1"
  | uint8 => "u1"
  | int16 => "i2"
  | uint16 => "u2"
  | int32 => "i4"
  | uint32 => "u4"
  | int64 => "i8"
  | uint64 => "u8"
  | float32 => "r4"
  | float64 => "r8"
  | nativeInt => "intptr"
  | nativeUInt => "uintptr"
  | string => "string"
  | object => "object"

def ofKey? (s : String) : Option Primitive :=
  all.find? (fun p => p.key == s)

end Primitive

namespace TypeSig

mutual

def toJson : TypeSig → Value
  | .primitive p => .str p.key
  | .reference n => .tagged "class" n.toJson
  | .value n => .tagged "value_type" n.toJson
  | .array e => .tagged "array" (toJson e)
  | .generic d isValue args =>
    .tagged "generic_inst" (.record
      [("definition", d.toJson), ("value_type", .bool isValue),
       ("args", .array (listToJson args))])
  | .typeParam i => .tagged "var" (.nat i.toNat)
  | .methodParam i => .tagged "mvar" (.nat i.toNat)
  | .byRef e => .tagged "byref" (toJson e)

def listToJson : List TypeSig → List Value
  | [] => []
  | t :: ts => toJson t :: listToJson ts

end

theorem listToJson_eq_map : ∀ ts : List TypeSig, listToJson ts = ts.map toJson
  | [] => rfl
  | t :: ts => by simp [listToJson, listToJson_eq_map ts]

end TypeSig

/-! ## §2  Reading -/

def TypeName.decode : Decode TypeName :=
  .structure ["namespace", "name"] fun f =>
    TypeName.mk <$> f.read "namespace" (some "") Decode.string
      <*> f.required "name" Decode.string

/-- Decodes a signature. Each level of a signature enters at least one level of
the tree, so that the room bounds the recursion. -/
def TypeSig.decode (source : Source) : Decode TypeSig
  | room, v =>
    match room, v with
    | _, .text (some tag) => primitive tag
    | room + 1, .object [(some tag, content)] =>
      match tag with
      | "class" => (TypeName.decode room content).map .reference
      | "value_type" => (TypeName.decode room content).map .value
      | "array" => (decode source room content).map .array
      | "byref" => (decode source room content).map .byRef
      | "var" => (Decode.uint16 room content).map .typeParam
      | "mvar" => (Decode.uint16 room content).map .methodParam
      | "generic_inst" =>
        match room with
        | 0 | 1 =>
            Decode.variantFields source [] (fun _ => .fault 0 .malformed) room content
        | room + 2 =>
          Decode.variantFields source ["definition", "value_type", "args"] (fun f =>
            TypeSig.generic <$> f.required "definition" TypeName.decode
              <*> f.read "value_type" (some false) Decode.bool
              <*> f.required "args" (fun
                | _, .array items => items.mapM (fun item => decode source room item)
                | _, _ => .error .malformed)) (room + 2) content
      | tag =>
        match content with
        | .null => primitive tag
        | _ => .error .malformed
    | _, _ => .error .malformed
where
  primitive (tag : String) : Except Fault TypeSig :=
    match Primitive.ofKey? tag with
    | some p => .ok (.primitive p)
    | none => .error .malformed

end Instrumentation
