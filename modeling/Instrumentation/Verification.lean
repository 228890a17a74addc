import Instrumentation.Flow.Depth
import Instrumentation.StackTyping
import Instrumentation.Module

/-!
# Verification

A body is well formed if every operand suits its opcode, every branch target and
every boundary of a handler is an instruction of the body, every local slot
exists, the last instruction does not fall through, and the declared stack
covers what control can need. A method also has to name its arguments within its
signature. The first fault found is the answer.
-/

namespace Instrumentation

namespace Body

def checkInstruction (b : Body) (position : Nat) (i : Instruction Handle) :
    Except VerifyError Unit :=
  if !i.isWellFormed then .error (.malformedOperand i.op position)
  else
    match i.targets.find? (fun t => !b.instructions.contains t) with
    | some t => .error (.invalidTarget t position)
    | none =>
      match i.operand with
      | .local index => discard (StackTyping.localType b.locals position index)
      | _ => .ok ()

def checkHandler (b : Body) (index : Nat) (h : ExceptionHandler Handle) :
    Except VerifyError Unit :=
  if h.marks.all b.instructions.contains then .ok ()
  else .error (.invalidHandler index)

def checkEnd (b : Body) (last : Instruction Handle) : Except VerifyError Unit :=
  if last.op.isTerminator then .ok ()
  else .error (.fallOffEnd (b.instructions.size - 1))

def checkStack (b : Body) (returnsValue : Bool) : Except VerifyError Unit := do
  let required ← b.requiredStack returnsValue
  if b.maxStack < required then .error (.stackOverflow b.maxStack required)
  else .ok ()

def verify (b : Body) (returnsValue : Bool) : Except VerifyError Unit :=
  match b.instructions.last?.bind b.instructions.get? with
  | none => .error (.fallOffEnd 0)
  | some last => do
    b.instructions.code.zipIdx.forM fun (i, position) => b.checkInstruction position i
    b.handlers.zipIdx.forM fun (h, index) => b.checkHandler index h
    b.checkEnd last
    b.checkStack returnsValue

end Body

namespace MethodDef

def checkArg (args : Array TypeSig) (position : Nat) (i : Instruction Handle) :
    Except VerifyError Unit :=
  match i.operand with
  | .arg index => discard (StackTyping.argType args position index)
  | _ => .ok ()

/-- Verifies a method of a type; one without a body has nothing to verify. -/
def verify {β : Type} (m : MethodDef Body) (declaring : TypeDef β) :
    Except VerifyError Unit :=
  match m.body? with
  | none => .ok ()
  | some b =>
    let checked : Except VerifyError Unit := do
      b.verify m.returnsValue
      let args := (m.argTypes declaring).toArray
      b.instructions.code.zipIdx.forM fun (i, position) => checkArg args position i
    checked.mapError (.inMethod (m.fullName declaring))

end MethodDef

def Module.verify (m : Module Body) : Except VerifyError Unit :=
  m.types.forM fun t => t.methods.forM fun method => method.verify t

end Instrumentation
