import Instrumentation.Body
import Instrumentation.Stored.Instruction

/-!
# Stored bodies

On disk an instruction is named by its position in program order. Storing a body
turns handles into positions, loading one turns positions into the handles of a
new list; a position past the end is refused, as are more instructions than a
list can hold, and a handle of another list is stored as such a position.

Sections: §1 stored bodies · §2 storing and loading · §3 JSON.
-/

namespace Instrumentation

/-! ## §1  Stored bodies -/

structure StoredBody where
  maxStack : UInt16
  initLocals : Bool
  locals : Array TypeSig
  instructions : List (Instruction Nat)
  handlers : List (ExceptionHandler Nat)
deriving DecidableEq

namespace StoredBody

/-- Every position that the body refers to: first from instructions, then from
handlers. -/
def references (s : StoredBody) : List Nat :=
  s.instructions.flatMap (·.targets) ++ s.handlers.flatMap (·.marks)

def dangling? (s : StoredBody) : Option Nat :=
  s.references.find? (fun p => s.instructions.length ≤ p)

/-- Why the body cannot be loaded: a reference past its end, or more
instructions than a list can hold. -/
def fault? (s : StoredBody) : Option BodyError :=
  match s.dangling? with
  | some p => some (.danglingReference p s.instructions.length)
  | none =>
      if InstructionList.capacity < s.instructions.length then some .full else none

/-- The body over a new list that issues its handles in program order. -/
def bind (s : StoredBody) (identity : Nat) : Body :=
  let handle (position : Nat) : Handle := ⟨identity, position⟩
  { maxStack := s.maxStack
    initLocals := s.initLocals
    locals := s.locals
    instructions := .ofList identity (s.instructions.map (·.map handle))
    handlers := s.handlers.map (·.map handle) }

end StoredBody

/-! ## §2  Storing and loading -/

namespace Body

/-- The position that stands for a handle that is none of the list's. -/
def noPosition : Nat := UInt32.size - 1

def toStored (b : Body) : StoredBody :=
  let position (h : Handle) : Nat := (b.instructions.position? h).getD noPosition
  { maxStack := b.maxStack
    initLocals := b.initLocals
    locals := b.locals
    instructions := b.instructions.code.map (·.map position)
    handlers := b.handlers.map (·.map position) }

def ofStored (identity : Nat) (s : StoredBody) : Except BodyError Body :=
  match s.fault? with
  | some e => .error e
  | none => .ok (s.bind identity)

end Body

/-! ## §3  JSON -/

open Json

section

variable {ρ : Type}

def HandlerKind.toJson (reference : ρ → Value) : HandlerKind ρ → Value
  | .catches t => .tagged "catch" t.toJson
  | .filter s => .tagged "filter" (.record [("filter_start", reference s)])
  | .finallyBlock => .str "finally"
  | .faultBlock => .str "fault"

def HandlerKind.decode (source : Source) (reference : Decode ρ) :
    Decode (HandlerKind ρ) :=
  fun room v =>
    match variant? room v with
    | some (.plain "finally") => .ok .finallyBlock
    | some (.plain "fault") => .ok .faultBlock
    | some (.carrying "finally" _ .null) => .ok .finallyBlock
    | some (.carrying "fault" _ .null) => .ok .faultBlock
    | some (.carrying "catch" room content) =>
        (TypeSig.decode source room content).map .catches
    | some (.carrying "filter" room content) =>
        Decode.variantFields source ["filter_start"]
          (fun f => HandlerKind.filter <$> f.required "filter_start" reference)
          room content
    | _ => .error .malformed

def optionToJson (reference : ρ → Value) : Option ρ → Value
  | none => .null
  | some r => reference r

def ExceptionHandler.toJson (reference : ρ → Value) (h : ExceptionHandler ρ) :
    Value :=
  .record
    [("kind", h.kind.toJson reference),
     ("try_start", reference h.tryStart),
     ("try_end", optionToJson reference h.tryEnd?),
     ("handler_start", reference h.handlerStart),
     ("handler_end", optionToJson reference h.handlerEnd?)]

def ExceptionHandler.decode (source : Source) (reference : Decode ρ) :
    Decode (ExceptionHandler ρ) :=
  .structure ["kind", "try_start", "try_end", "handler_start", "handler_end"] fun f =>
    ExceptionHandler.mk <$> f.required "kind" (HandlerKind.decode source reference)
      <*> f.required "try_start" reference
      <*> f.nullable "try_end" reference
      <*> f.required "handler_start" reference
      <*> f.nullable "handler_end" reference

end

namespace StoredBody

def toJson (s : StoredBody) : Value :=
  .record
    ([("max_stack", .nat s.maxStack.toNat), ("init_locals", .bool s.initLocals)]
      ++ listMember "locals" (TypeSig.listToJson s.locals.toList)
      ++ [("instructions", .array (s.instructions.map (Instruction.toJson .nat)))]
      ++ listMember "handlers" (s.handlers.map (ExceptionHandler.toJson .nat)))

def decodeFields (source : Source) : Decode StoredBody :=
  .structure
    ["max_stack", "init_locals", "locals", "instructions", "handlers"] fun f =>
    StoredBody.mk <$> f.read "max_stack" (some 8) Decode.uint16
      <*> f.read "init_locals" (some true) Decode.bool
      <*> f.read "locals" (some #[])
        (fun room v =>
          (Decode.list (TypeSig.decode source) room v).map List.toArray)
      <*> f.required "instructions"
        (Decode.list (Instruction.decode source decodePosition))
      <*> f.read "handlers" (some [])
        (Decode.list (ExceptionHandler.decode source decodePosition))

/-- What is wrong with a text that holds such a body. -/
def textFault : BodyError → Fault
  | .danglingReference position length => .dangling position length
  | _ => .malformed

/-- Decodes a body; one that has been read in full must be one that can be
loaded. -/
def decode (source : Source) : Decode StoredBody :=
  fun room v => do
    let s ← decodeFields source room v
    match s.fault? with
    | some e => .error (textFault e)
    | none => return s

end StoredBody

end Instrumentation
