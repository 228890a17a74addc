import Instrumentation.Flow.Effect

/-!
# Typing a straight line

A sequence of instructions is run on kinds instead of values, without following
control: a branch only takes its operands. What is left is the stack after the
last instruction. The stack is a list, its top first.

Sections: §1 taking values · §2 one instruction · §3 sequences.
-/

namespace Instrumentation

/-- The kinds of values on the operand stack, top first. -/
abbrev KindStack := List StackKind

namespace StackTyping

/-! ## §1  Taking values -/

def take (position : Nat) : KindStack → Except VerifyError (StackKind × KindStack)
  | [] => .error (.stackUnderflow position)
  | k :: stack => .ok (k, stack)

def takeKind (position : Nat) (wanted : StackKind) :
    KindStack → Except VerifyError (StackKind × KindStack)
  | [] => .error (.stackUnderflow position)
  | k :: stack =>
    if wanted.accepts k then .ok (k, stack)
    else .error (.typeMismatch position wanted k)

/-- Takes values that go where these kinds are wanted, the first from the top. -/
def takeKinds (position : Nat) :
    List StackKind → KindStack → Except VerifyError KindStack
  | [], stack => .ok stack
  | wanted :: rest, stack => do
    let (_, stack) ← takeKind position wanted stack
    takeKinds position rest stack

def takeMany (position : Nat) : Nat → KindStack → Except VerifyError KindStack
  | 0, stack => .ok stack
  | n + 1, stack => do
    let (_, stack) ← take position stack
    takeMany position n stack

def argType (args : Array TypeSig) (position : Nat) (index : UInt16) :
    Except VerifyError TypeSig :=
  match args[index.toNat]? with
  | some t => .ok t
  | none => .error (.invalidArg index.toNat args.size position)

def localType (locals : Array TypeSig) (position : Nat) (index : UInt16) :
    Except VerifyError TypeSig :=
  match locals[index.toNat]? with
  | some t => .ok t
  | none => .error (.invalidLocal index.toNat locals.size position)

/-! ## §2  One instruction -/

/-- A call takes the arguments, the last from the top, then the receiver, which
must be a reference or a pointer, and leaves what the method returns. -/
def call (position : Nat) (m : MethodRef) (stack : KindStack) :
    Except VerifyError KindStack := do
  let stack ← takeKinds position (m.params.reverse.map TypeSig.stackKind) stack
  let stack ←
    if m.hasThis then do
      let (receiver, stack) ← take position stack
      if receiver = .objectRef ∨ receiver = .managedPtr then .ok stack
      else .error (.typeMismatch position .objectRef receiver)
    else .ok stack
  return if m.returnsValue then m.returnType.stackKind :: stack else stack

/-- An allocation takes the constructor's arguments and leaves the new object,
or the value itself of a value type. -/
def newobj (position : Nat) (m : MethodRef) (stack : KindStack) :
    Except VerifyError KindStack := do
  let stack ← takeKinds position (m.params.reverse.map TypeSig.stackKind) stack
  return (if m.declaringType.isValueType then .value else .objectRef) :: stack

/-- Boxing takes any value but a pointer. -/
def box (position : Nat) (stack : KindStack) : Except VerifyError KindStack := do
  let (found, stack) ← take position stack
  if found = .managedPtr then .error (.typeMismatch position .value found)
  else return .objectRef :: stack

/-- Arithmetic takes two values, of which the first must go for the second, and
leaves one like the first. -/
def arithmetic (position : Nat) (stack : KindStack) :
    Except VerifyError KindStack := do
  let (right, stack) ← take position stack
  let (left, stack) ← takeKind position right stack
  return left :: stack

section

variable {ρ : Type}

def apply (args locals : Array TypeSig) (position : Nat) (i : Instruction ρ)
    (stack : KindStack) : Except VerifyError KindStack :=
  match i.op, i.operand with
  | .ldarg, .arg index => do return (← argType args position index).stackKind :: stack
  | .ldarga, .arg index => do
    discard (argType args position index)
    return .managedPtr :: stack
  | .starg, .arg index => do
    let t ← argType args position index
    takeKinds position [t.stackKind] stack
  | .ldloc, .local index => do
    return (← localType locals position index).stackKind :: stack
  | .ldloca, .local index => do
    discard (localType locals position index)
    return .managedPtr :: stack
  | .stloc, .local index => do
    let t ← localType locals position index
    takeKinds position [t.stackKind] stack
  | .ldnull, _ | .ldstr, _ => .ok (.objectRef :: stack)
  | .ldcI4, _ => .ok (.int32 :: stack)
  | .ldcI8, _ => .ok (.int64 :: stack)
  | .ldcR8, _ => .ok (.float :: stack)
  | .dup, _ => do
    let (top, stack) ← take position stack
    return top :: top :: stack
  | .call, .method m | .callvirt, .method m => call position m stack
  | .newobj, .method m => newobj position m stack
  | .ldfld, .field f => do
    let (_, stack) ← take position stack
    return f.fieldType.stackKind :: stack
  | .stfld, .field f => do
    let stack ← takeKinds position [f.fieldType.stackKind] stack
    takeMany position 1 stack
  | .ldsfld, .field f => .ok (f.fieldType.stackKind :: stack)
  | .stsfld, .field f => takeKinds position [f.fieldType.stackKind] stack
  | .newarr, _ => do return .objectRef :: (← takeKinds position [.int32] stack)
  | .ldlen, _ => do return .nativeInt :: (← takeKinds position [.objectRef] stack)
  | .ldelemRef, _ => do
    return .objectRef :: (← takeKinds position [.int32, .objectRef] stack)
  | .stelemRef, _ => takeKinds position [.objectRef, .int32, .objectRef] stack
  | .box, _ => box position stack
  | .unboxAny, .type t => do
    return t.stackKind :: (← takeKinds position [.objectRef] stack)
  | .castclass, _ | .isinst, _ => do
    return .objectRef :: (← takeKinds position [.objectRef] stack)
  | .ldobj, .type t => do
    return t.stackKind :: (← takeKinds position [.managedPtr] stack)
  | .add, _ | .sub, _ | .mul, _ | .div, _ | .rem, _ => arithmetic position stack
  | .neg, _ => do
    let (top, stack) ← take position stack
    return top :: stack
  | .ceq, _ | .cgt, _ | .clt, _ => do return .int32 :: (← takeMany position 2 stack)
  | .ret, _ | .leave, _ | .endfinally, _ => .ok []
  | op, _ => takeMany position op.effect.pops stack

def step (args locals : Array TypeSig) (position : Nat) (i : Instruction ρ)
    (stack : KindStack) : Except VerifyError KindStack :=
  if i.isWellFormed then apply args locals position i stack
  else .error (.malformedOperand i.op position)

/-! ## §3  Sequences -/

/-- Runs instructions, the first of which stands at a position, on a stack. -/
def run (args locals : Array TypeSig) :
    (position : Nat) → List (Instruction ρ) → KindStack →
      Except VerifyError KindStack
  | _, [], stack => .ok stack
  | position, i :: code, stack => do
    let stack ← step args locals position i stack
    run args locals (position + 1) code stack

/-- The stack that a sequence leaves, bottom first. `args` are the types of the
argument slots and `locals` those of the local slots. -/
def finalStack (code : List (Instruction ρ)) (args locals : Array TypeSig) :
    Except VerifyError (List StackKind) :=
  (run args locals 0 code []).map List.reverse

end

end StackTyping

end Instrumentation
