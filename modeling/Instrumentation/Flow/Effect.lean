import Instrumentation.InstructionList

/-!
# Stack effects

What every instruction takes from the operand stack and leaves on it, as numbers
of values, and the ways in which a body can be refused. Positions in refusals
count instructions in program order.

Sections: §1 refusals · §2 effects.
-/

namespace Instrumentation

/-! ## §1  Refusals -/

inductive VerifyError where
  | malformedOperand (op : Opcode) (position : Nat)
  | stackUnderflow (position : Nat)
  | stackOverflow (declared required : UInt16)
  | inconsistentDepth (position expected found : Nat)
  | typeMismatch (position : Nat) (expected found : StackKind)
  | invalidTarget (target : Handle) (position : Nat)
  | invalidHandler (index : Nat)
  | invalidLocal (index max position : Nat)
  | invalidArg (index max position : Nat)
  | fallOffEnd (position : Nat)
  | inMethod (method : String) (cause : VerifyError)
deriving DecidableEq

def VerifyError.message : VerifyError → String
  | malformedOperand op p =>
      "Malformed operand for " ++ op.mnemonic ++ " at position " ++ toString p
  | stackUnderflow p => "Stack underflow at position " ++ toString p
  | stackOverflow declared required =>
    "Declared max stack " ++ toString declared.toNat ++
      " is below the required depth " ++ toString required.toNat
  | inconsistentDepth p expected found =>
    "Inconsistent stack depth at position " ++ toString p ++ ": " ++
      toString expected ++ " vs " ++ toString found
  | typeMismatch p expected found =>
    "Type mismatch at position " ++ toString p ++ ": expected " ++ expected.text ++
      ", found " ++ found.text
  | invalidTarget t p =>
      "Invalid branch target " ++ t.text ++ " at position " ++ toString p
  | invalidHandler i =>
    "Exception handler " ++ toString i ++ " refers to an instruction outside the body"
  | invalidLocal i max p =>
    "Invalid local variable reference: index " ++ toString i ++ " (max " ++
      toString max ++ ") at position " ++ toString p
  | invalidArg i max p =>
    "Invalid argument reference: index " ++ toString i ++ " (max " ++ toString max ++
      ") at position " ++ toString p
  | fallOffEnd p => "Execution falls off end of method at position " ++ toString p
  | inMethod m cause => m ++ ": " ++ cause.message

/-! ## §2  Effects -/

/-- How many values an instruction takes from the stack and how many it then
leaves there. -/
structure StackEffect where
  pops : Nat
  pushes : Nat
deriving DecidableEq

def Opcode.effect : Opcode → StackEffect
  | .nop | .br | .leave | .endfinally | .rethrow => ⟨0, 0⟩
  | .dup => ⟨1, 2⟩
  | .pop | .starg | .stloc | .stsfld | .brfalse | .brtrue | .switch | .throw => ⟨1, 0⟩
  | .ldarg | .ldarga | .ldloc | .ldloca | .ldnull | .ldcI4 | .ldcI8 | .ldcR8 | .ldstr
  | .ldsfld => ⟨0, 1⟩
  | .beq | .bneUn | .blt | .bgt | .ble | .bge | .stfld => ⟨2, 0⟩
  | .add | .sub | .mul | .div | .rem | .ceq | .cgt | .clt | .ldelemRef => ⟨2, 1⟩
  | .neg | .ldfld | .newarr | .ldlen | .box | .unboxAny | .castclass | .isinst
  | .ldobj => ⟨1, 1⟩
  | .stelemRef => ⟨3, 0⟩
  | .call | .callvirt | .newobj | .ret => ⟨0, 0⟩

/-- The effect of an instruction. Calls go by the method they name, a return by
whether its method returns a value; a call that names no method has no effect to
speak of. -/
def Instruction.effect {ρ : Type} (returnsValue : Bool) (position : Nat)
    (i : Instruction ρ) : Except VerifyError StackEffect :=
  match i.op, i.operand with
  | .call, .method m | .callvirt, .method m =>
      .ok ⟨m.takes, if m.returnsValue then 1 else 0⟩
  | .newobj, .method m => .ok ⟨m.params.length, 1⟩
  | .call, _ | .callvirt, _ | .newobj, _ => .error (.malformedOperand i.op position)
  | .ret, _ => .ok ⟨if returnsValue then 1 else 0, 0⟩
  | op, _ => .ok op.effect

end Instrumentation
