/-!
# Opcodes

The instruction set is the part of a typed stack machine that compiled method
bodies hold and that log calls are made of. Long and short encodings of one
operation are one opcode; what an opcode carries is its operand's business, of
which only the shape is fixed here.

Sections: §1 the set · §2 names · §3 operand shapes · §4 flow.
-/

namespace Instrumentation

/-! ## §1  The set -/

inductive Opcode where
  | nop | dup | pop
  | ldarg | ldarga | starg | ldloc | ldloca | stloc
  | ldnull | ldcI4 | ldcI8 | ldcR8 | ldstr
  | call | callvirt | newobj | ret
  | br | brfalse | brtrue | beq | bneUn | blt | bgt | ble | bge | switch
  | leave | endfinally | throw | rethrow
  | add | sub | mul | div | rem | neg | ceq | cgt | clt
  | ldfld | stfld | ldsfld | stsfld
  | newarr | ldlen | ldelemRef | stelemRef
  | box | unboxAny | castclass | isinst | ldobj
deriving DecidableEq, Inhabited

namespace Opcode

def all : List Opcode :=
  [nop, dup, pop,
   ldarg, ldarga, starg, ldloc, ldloca, stloc,
   ldnull, ldcI4, ldcI8, ldcR8, ldstr,
   call, callvirt, newobj, ret,
   br, brfalse, brtrue, beq, bneUn, blt, bgt, ble, bge, switch,
   leave, endfinally, throw, rethrow,
   add, sub, mul, div, rem, neg, ceq, cgt, clt,
   ldfld, stfld, ldsfld, stsfld,
   newarr, ldlen, ldelemRef, stelemRef,
   box, unboxAny, castclass, isinst, ldobj]

/-! ## §2  Names -/

/-- The name in listings, with a dot between the parts. -/
def mnemonic : Opcode → String
  | nop => "nop" | dup => "dup" | pop => "pop"
  | ldarg => "ldarg" | ldarga => "ldarga" | starg => "starg"
  | ldloc => "ldloc" | ldloca => "ldloca" | stloc => "stloc"
  | ldnull => "ldnull" | ldcI4 => "ldc.i4" | ldcI8 => "ldc.i8" | ldcR8 => "ldc.r8"
  | ldstr => "ldstr"
  | call => "call" | callvirt => "callvirt" | newobj => "newobj" | ret => "ret"
  | br => "br" | brfalse => "brfalse" | brtrue => "brtrue"
  | beq => "beq" | bneUn => "bne.un" | blt => "blt" | bgt => "bgt" | ble => "ble"
  | bge => "bge"
  | switch => "switch"
  | leave => "leave" | endfinally => "endfinally" | throw => "throw"
  | rethrow => "rethrow"
  | add => "add" | sub => "sub" | mul => "mul" | div => "div" | rem => "rem"
  | neg => "neg"
  | ceq => "ceq" | cgt => "cgt" | clt => "clt"
  | ldfld => "ldfld" | stfld => "stfld" | ldsfld => "ldsfld" | stsfld => "stsfld"
  | newarr => "newarr" | ldlen => "ldlen" | ldelemRef => "ldelem.ref"
  | stelemRef => "stelem.ref"
  | box => "box" | unboxAny => "unbox.any" | castclass => "castclass"
  | isinst => "isinst"
  | ldobj => "ldobj"

/-- The name in stored modules, with an underscore between the parts. -/
def key : Opcode → String
  | ldcI4 => "ldc_i4" | ldcI8 => "ldc_i8" | ldcR8 => "ldc_r8"
  | bneUn => "bne_un"
  | ldelemRef => "ldelem_ref" | stelemRef => "stelem_ref"
  | unboxAny => "unbox_any"
  | op => op.mnemonic

def ofKey? (s : String) : Option Opcode :=
  all.find? (fun op => op.key == s)

end Opcode

/-! ## §3  Operand shapes -/

inductive OperandShape where
  | none | int32 | int64 | float64 | string | arg | local | type | field | method
  | target | switch
deriving DecidableEq

namespace Opcode

def shape : Opcode → OperandShape
  | ldarg | ldarga | starg => .arg
  | ldloc | ldloca | stloc => .local
  | ldcI4 => .int32
  | ldcI8 => .int64
  | ldcR8 => .float64
  | ldstr => .string
  | call | callvirt | newobj => .method
  | br | brfalse | brtrue | beq | bneUn | blt | bgt | ble | bge | leave => .target
  | switch => .switch
  | ldfld | stfld | ldsfld | stsfld => .field
  | newarr | box | unboxAny | castclass | isinst | ldobj => .type
  | _ => .none

/-! ## §4  Flow -/

def isBranch (op : Opcode) : Bool :=
  op.shape == .target || op.shape == .switch

/-- A branch that may also fall through. -/
def isConditionalBranch (op : Opcode) : Bool :=
  op.isBranch && op != br && op != leave

def isCall : Opcode → Bool
  | call | callvirt | newobj => true
  | _ => false

def isReturn : Opcode → Bool
  | ret => true
  | _ => false

/-- Whether control never goes on to the instruction that follows. -/
def isTerminator : Opcode → Bool
  | br | leave | ret | throw | rethrow | endfinally => true
  | _ => false

end Opcode

end Instrumentation
