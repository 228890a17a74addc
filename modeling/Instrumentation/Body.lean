import Instrumentation.InstructionList

/-!
# Method bodies

A body is its instructions, its local slots and its exception handlers. A
handler marks a protected region and the block that runs for it by their first
instructions and by the instructions after them; where the latter is missing the
region lasts to the end of the body.

Sections: §1 handlers · §2 bodies.
-/

namespace Instrumentation

/-! ## §1  Handlers -/

/-- What a handler is for. A filter decides whether its handler runs, in a block
of its own. -/
inductive HandlerKind (ρ : Type) where
  | catches (type : TypeSig)
  | filter (start : ρ)
  | finallyBlock
  | faultBlock
deriving DecidableEq

structure ExceptionHandler (ρ : Type) where
  kind : HandlerKind ρ
  tryStart : ρ
  tryEnd? : Option ρ
  handlerStart : ρ
  handlerEnd? : Option ρ
deriving DecidableEq

section

variable {ρ σ : Type}

def HandlerKind.filterStart? : HandlerKind ρ → Option ρ
  | .filter start => some start
  | _ => none

def HandlerKind.map (f : ρ → σ) : HandlerKind ρ → HandlerKind σ
  | .catches t => .catches t
  | .filter s => .filter (f s)
  | .finallyBlock => .finallyBlock
  | .faultBlock => .faultBlock

namespace ExceptionHandler

def marks (h : ExceptionHandler ρ) : List ρ :=
  [h.tryStart, h.handlerStart] ++ h.tryEnd?.toList ++ h.handlerEnd?.toList ++
    h.kind.filterStart?.toList

/-- The instructions just after a region that is the handler's. -/
def ends (h : ExceptionHandler ρ) : List ρ := h.tryEnd?.toList ++ h.handlerEnd?.toList

theorem mem_marks_of_ends {x : ExceptionHandler ρ} {h : ρ} (hh : h ∈ x.ends) :
    h ∈ x.marks := by
  simp only [ends, List.mem_append] at hh
  simp only [marks, List.mem_append]
  rcases hh with htry | hhandler
  · exact .inl (.inl (.inr htry))
  · exact .inl (.inr hhandler)

def map (f : ρ → σ) (h : ExceptionHandler ρ) : ExceptionHandler σ :=
  { kind := h.kind.map f
    tryStart := f h.tryStart
    tryEnd? := h.tryEnd?.map f
    handlerStart := f h.handlerStart
    handlerEnd? := h.handlerEnd?.map f }

end ExceptionHandler

end

/-! ## §2  Bodies -/

structure Body where
  maxStack : UInt16
  initLocals : Bool
  locals : Array TypeSig
  instructions : InstructionList
  handlers : List (ExceptionHandler Handle)

namespace Body

/-- The greatest number of local slots: a slot index has sixteen bits. -/
def maxLocals : Nat := UInt16.size

/-- A body around an instruction list, with the usual stack and nothing else. -/
def ofInstructions (l : InstructionList) : Body :=
  { maxStack := 8, initLocals := true, locals := #[], instructions := l,
    handlers := [] }

def empty (identity : Nat) : Body := ofInstructions (.empty identity)

def pushLocal (b : Body) (t : TypeSig) : Except BodyError (UInt16 × Body) :=
  if b.locals.size < maxLocals then
    .ok (UInt16.ofNat b.locals.size, { b with locals := b.locals.push t })
  else .error .tooManyLocals

def returns (b : Body) : List Handle :=
  (b.instructions.entries.filter (fun e => e.2.op.isReturn)).map (·.1)

end Body

end Instrumentation
