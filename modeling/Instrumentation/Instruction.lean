import Instrumentation.TypeSig
import Instrumentation.Opcode
import Instrumentation.Decimal.Notation
import Instrumentation.Text.Quoted

/-!
# Instructions

An instruction is an opcode with an operand. What a branch names its targets by
is left open (`ρ`): a body in memory uses handles, a stored body uses positions,
and most of the theory looks at neither.

Sections: §1 member references · §2 operands · §3 instructions · §4 text.
-/

namespace Instrumentation

/-! ## §1  Member references -/

/-- A field as an instruction names it. The declaring type is instantiated if it
is generic. -/
structure FieldRef where
  declaringType : TypeSig
  name : String
  fieldType : TypeSig
deriving DecidableEq

/-- A method as a call names it. `scope?` is the module that defines it, none
for the module at hand. -/
structure MethodRef where
  scope? : Option String
  declaringType : TypeSig
  name : String
  hasThis : Bool
  params : List TypeSig
  returnType : TypeSig
  genericArgs : List TypeSig
deriving DecidableEq

/-- `FieldType DeclaringType::name`. -/
def FieldRef.fullName (f : FieldRef) : String :=
  f.fieldType.fullName ++ " " ++ f.declaringType.fullName ++ "::" ++ f.name

namespace MethodRef

def returnsValue (m : MethodRef) : Bool := m.returnType != .void

/-- How many values a call takes from the stack, the receiver included. -/
def takes (m : MethodRef) : Nat := m.params.length + if m.hasThis then 1 else 0

/-- `ReturnType DeclaringType::Name<Args>(Params)`. -/
def fullName (m : MethodRef) : String :=
  let generic :=
    if m.genericArgs.isEmpty then "" else "<" ++ TypeSig.nameList m.genericArgs ++ ">"
  m.returnType.fullName ++ " " ++ m.declaringType.fullName ++ "::" ++ m.name ++
    generic ++ "(" ++ TypeSig.nameList m.params ++ ")"

end MethodRef

/-! ## §2  Operands -/

inductive Operand (ρ : Type) where
  | none
  | int32 (value : Int32)
  | int64 (value : Int64)
  | float64 (value : Binary64)
  | string (value : String)
  | arg (index : UInt16)
  | local (index : UInt16)
  | type (type : TypeSig)
  | field (field : FieldRef)
  | method (method : MethodRef)
  | target (target : ρ)
  | switch (targets : List ρ)
deriving DecidableEq

namespace Operand

variable {ρ σ : Type}

def shape : Operand ρ → OperandShape
  | .none => .none
  | .int32 _ => .int32
  | .int64 _ => .int64
  | .float64 _ => .float64
  | .string _ => .string
  | .arg _ => .arg
  | .local _ => .local
  | .type _ => .type
  | .field _ => .field
  | .method _ => .method
  | .target _ => .target
  | .switch _ => .switch

/-- The instructions that the operand names, in order, repetitions included. -/
def targets : Operand ρ → List ρ
  | .target t => [t]
  | .switch ts => ts
  | _ => []

def map (f : ρ → σ) : Operand ρ → Operand σ
  | .none => .none
  | .int32 v => .int32 v
  | .int64 v => .int64 v
  | .float64 v => .float64 v
  | .string v => .string v
  | .arg i => .arg i
  | .local i => .local i
  | .type t => .type t
  | .field r => .field r
  | .method m => .method m
  | .target t => .target (f t)
  | .switch ts => .switch (ts.map f)

@[simp]
theorem shape_map (f : ρ → σ) (o : Operand ρ) : (o.map f).shape = o.shape := by
  cases o <;> rfl

@[simp]
theorem targets_map (f : ρ → σ) (o : Operand ρ) :
    (o.map f).targets = o.targets.map f := by
  cases o <;> rfl

end Operand

/-! ## §3  Instructions -/

structure Instruction (ρ : Type) where
  op : Opcode
  operand : Operand ρ := .none
deriving DecidableEq

namespace Instruction

variable {ρ σ : Type}

def isWellFormed (i : Instruction ρ) : Bool := i.op.shape == i.operand.shape

def targets (i : Instruction ρ) : List ρ := i.operand.targets

def map (f : ρ → σ) (i : Instruction ρ) : Instruction σ := ⟨i.op, i.operand.map f⟩

@[simp] theorem op_map (f : ρ → σ) (i : Instruction ρ) : (i.map f).op = i.op := rfl

@[simp]
theorem operand_map (f : ρ → σ) (i : Instruction ρ) :
    (i.map f).operand = i.operand.map f := rfl

@[simp]
theorem targets_map (f : ρ → σ) (i : Instruction ρ) :
    (i.map f).targets = i.targets.map f :=
  Operand.targets_map f i.operand

def ldarg (index : UInt16) : Instruction ρ := ⟨.ldarg, .arg index⟩

def ldloc (slot : UInt16) : Instruction ρ := ⟨.ldloc, .local slot⟩

def stloc (slot : UInt16) : Instruction ρ := ⟨.stloc, .local slot⟩

def ldcI4 (value : Int32) : Instruction ρ := ⟨.ldcI4, .int32 value⟩

def ldstr (value : String) : Instruction ρ := ⟨.ldstr, .string value⟩

def ldfld (field : FieldRef) : Instruction ρ := ⟨.ldfld, .field field⟩

def call (method : MethodRef) : Instruction ρ := ⟨.call, .method method⟩

def onType (op : Opcode) (type : TypeSig) : Instruction ρ := ⟨op, .type type⟩

/-! ## §4  Text -/

/-- Whether the opcode has encodings with the index in the opcode itself. -/
def hasShortForms : Opcode → Bool
  | .ldarg | .ldloc | .stloc => true
  | _ => false

/-- The text of an opcode with an index: `ldarg.0` up to three where such a form
exists. -/
def indexedText (op : Opcode) (index : UInt16) : String :=
  if hasShortForms op && index ≤ 3 then op.mnemonic ++ "." ++ toString index.toNat
  else op.mnemonic ++ " " ++ toString index.toNat

def text (target : ρ → String) (i : Instruction ρ) : String :=
  let op := i.op.mnemonic
  match i.operand with
  | .none => op
  | .int32 v => op ++ " " ++ toString v.toInt
  | .int64 v => op ++ " " ++ toString v.toInt
  | .float64 x => op ++ " " ++ Decimal.listed x
  | .string s => op ++ " " ++ Text.quoted s
  | .arg index | .local index => indexedText i.op index
  | .type t => op ++ " " ++ t.fullName
  | .field f => op ++ " " ++ f.fullName
  | .method m => op ++ " " ++ m.fullName
  | .target t => op ++ " " ++ target t
  | .switch ts => op ++ " (" ++ ", ".intercalate (ts.map target) ++ ")"

end Instruction

end Instrumentation
