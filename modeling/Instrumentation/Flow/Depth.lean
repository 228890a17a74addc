import Instrumentation.Body
import Instrumentation.Flow.Effect

/-!
# The stack a body needs

Every instruction that control can reach, from the entry and from the handlers,
is visited once with the stack depth it is reached with; a second way to it must
bring the same depth. A catch or filter block starts with the exception on the
stack, `leave` empties the stack, and control ends at a return, at a throw and
at the end of a finally block.

The places still to visit form a stack. A visit of an instruction for the first
time uses up one of its occurrences and adds its successors, so as many visits
as there are starts and edges always suffice.

Sections: §1 edges · §2 visits · §3 the analysis.
-/

namespace Instrumentation

/-! ## §1  Edges -/

/-- Whether control goes to the targets of an opcode's operand. -/
def Opcode.followsTargets : Opcode → Bool
  | .endfinally | .ret | .throw | .rethrow => false
  | _ => true

/-- The depth at the targets of an instruction that leaves depth `after`. -/
def Opcode.targetDepth (op : Opcode) (after : Nat) : Nat :=
  if op = .leave then 0 else after

/-- Where control may stand: at a position of the body, or at a handle that is
none of its instructions. -/
inductive Place where
  | at (position : Nat)
  | outside (h : Handle)
deriving DecidableEq

namespace Body

def place (b : Body) (h : Handle) : Place :=
  match b.instructions.position? h with
  | some p => .at p
  | none => .outside h

def entryDepth : HandlerKind Handle → Nat
  | .catches _ | .filter _ => 1
  | .finallyBlock | .faultBlock => 0

/-- The places where control enters a body, with their depths. -/
def starts (b : Body) : List (Place × Nat) :=
  (if b.instructions.isEmpty then [] else [(.at 0, 0)])
    ++ b.handlers.flatMap fun h =>
      (b.place h.handlerStart, entryDepth h.kind)
        :: (h.kind.filterStart?.map fun s => (b.place s, 1)).toList

/-- Where control goes from the instruction at a position, its targets first. -/
def successors (b : Body) (position : Nat) (i : Instruction Handle) (after : Nat) :
    List (Place × Nat) :=
  (if i.op.followsTargets then
    i.targets.map fun t => (b.place t, i.op.targetDepth after) else []) ++
  (if i.op.isTerminator || b.instructions.size ≤ position + 1 then []
    else [(.at (position + 1), after)])

/-! ## §2  Visits -/

/-- A position that control does not have. -/
def unknownPosition : Nat := UInt64.size - 1

/-- What is still to visit, the depths found so far by position, and the
greatest depth. -/
structure Exploration where
  work : List (Place × Nat)
  depths : Array (Option Nat)
  peak : Nat

/-- Visits one place. Known with the same depth it has nothing to add; reached
for the first time it is checked and its successors wait to be visited, the last
of them next. -/
def visit (b : Body) (returnsValue : Bool) (code : Array (Instruction Handle))
    (place : Place) (depth : Nat) (s : Exploration) :
    Except VerifyError Exploration :=
  match place with
  | .outside h => .error (.invalidTarget h unknownPosition)
  | .at p =>
    match s.depths[p]?.join with
    | some seen =>
        if seen = depth then .ok s else .error (.inconsistentDepth p seen depth)
    | none =>
      let i := code[p]?.getD default
      match i.effect returnsValue p with
      | .error e => .error e
      | .ok effect =>
        if depth < effect.pops then .error (.stackUnderflow p)
        else
          let after := depth - effect.pops + effect.pushes
          .ok
            { work := (b.successors p i after).reverse ++ s.work
              depths := s.depths.setIfInBounds p (some depth)
              peak := max s.peak (max depth after) }

/-- Visits places until none is left; none if that takes more than `fuel` visits. -/
def explore (b : Body) (returnsValue : Bool) (code : Array (Instruction Handle)) :
    (fuel : Nat) → Exploration → Option (Except VerifyError Nat)
  | _, ⟨[], _, peak⟩ => some (.ok peak)
  | 0, _ => none
  | fuel + 1, ⟨(place, depth) :: work, depths, peak⟩ =>
    match visit b returnsValue code place depth ⟨work, depths, peak⟩ with
    | .error e => some (.error e)
    | .ok s => explore b returnsValue code fuel s

/-! ## §3  The analysis -/

def edgeCount (b : Body) : Nat :=
  (b.instructions.code.flatMap (·.targets)).length + b.instructions.size

/-- The greatest stack depth that control can reach, or why there is none. -/
def peakDepth (b : Body) (returnsValue : Bool) : Except VerifyError Nat :=
  let start : Exploration :=
    { work := b.starts.reverse
      depths := Array.replicate b.instructions.size none
      peak := 0 }
  (explore b returnsValue b.instructions.code.toArray
    (b.starts.length + b.edgeCount) start).getD (.ok 0)

/-- The stack a body needs, as far as sixteen bits can say. -/
def requiredStack (b : Body) (returnsValue : Bool) : Except VerifyError UInt16 :=
  (b.peakDepth returnsValue).map fun peak => UInt16.ofNat (min peak (UInt16.size - 1))

end Body

end Instrumentation
