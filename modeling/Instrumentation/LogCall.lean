import Instrumentation.Insertion

/-!
# Log calls

The two insertions that log. The entry call packs every argument of a method
into a new array, which a local slot of its own holds, and passes it with a
format text that names the parameters. The exit call passes a fixed message and
an empty array.

Sections: §1 the format text · §2 entry · §3 exit.
-/

namespace Instrumentation

/-! ## §1  The format text -/

/-- One parameter in a format text: its name and, in braces, its number. -/
def placeholder (name : String) (ordinal : Nat) : String :=
  name ++ "=\x7b" ++ toString ordinal ++ "\x7d"

/-- All parameters of a method, separated by commas. -/
def MethodDef.formatText {β : Type} (m : MethodDef β) : String :=
  ", ".intercalate
    (m.params.zipIdx.map fun (p, ordinal) => placeholder p.name ordinal)

/-! ## §2  Entry -/

/-- Why a method has no entry call; each cause names the method. -/
inductive EntryError where
  | tooManyParameters (method : String)
  | tooManyLocals (method : String)
deriving DecidableEq

/-- What is loaded where a pointer is given: the type pointed at, and any other
type itself. -/
def TypeSig.pointee : TypeSig → TypeSig
  | .byRef element => element
  | t => t

/-- Turns the value on the stack into an object reference. What a pointer points
at is loaded first; then a value is boxed and a reference is cast. -/
def asObject (t : TypeSig) : List (Instruction Handle) :=
  let load : List (Instruction Handle) := match t with
    | .byRef element => [.onType .ldobj element]
    | _ => []
  load ++ match t.pointee.storage with
    | .value => [.onType .box t.pointee]
    | .reference => [.onType .castclass .object]

def packArgument (slot : UInt16) (p : ParamDef) (ordinal : Nat) :
    List (Instruction Handle) :=
  [.ldloc slot, .ldcI4 (Int32.ofNat ordinal), .ldarg (UInt16.ofNat (ordinal + 1))]
    ++ asObject p.paramType ++ [⟨.stelemRef, .none⟩]

def entryCode {β : Type} (m : MethodDef β) (logger : FieldRef) (callable : MethodRef)
    (slot : UInt16) : List (Instruction Handle) :=
  [.ldarg 0, .ldfld logger, .ldstr m.formatText, .ldcI4 (Int32.ofNat m.params.length),
      .onType .newarr .object, .stloc slot]
    ++ m.params.zipIdx.flatMap (fun (p, ordinal) => packArgument slot p ordinal)
    ++ [.ldloc slot, .call callable]

/-- The entry call of a method. Its array goes into the slot after the method's
own; slots and arguments are numbered in sixteen bits, elements of the array in
thirty-one. -/
def MethodDef.entryCall (m : MethodDef Body) (logger : FieldRef)
    (callable : MethodRef) : Except EntryError Insertion :=
  let slot := match m.body? with
    | some b => b.locals.size
    | none => 0
  if 1 <<< 31 ≤ m.params.length then .error (.tooManyParameters m.name)
  else if UInt16.size ≤ slot then .error (.tooManyLocals m.name)
  else if UInt16.size ≤ m.params.length then .error (.tooManyParameters m.name)
  else .ok ⟨entryCode m logger callable (UInt16.ofNat slot), [.objects]⟩

/-! ## §3  Exit -/

def exitCall (logger : FieldRef) (callable emptyArray : MethodRef) (message : String) :
    Insertion :=
  ⟨[.ldarg 0, .ldfld logger, .ldstr message, .call emptyArray, .call callable], []⟩

end Instrumentation
