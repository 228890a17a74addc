import Instrumentation.Proofs.Json.Decoding
import Instrumentation.Stored.Module

/-!
# How deep stored modules nest

In the text of a module a type signature stands somewhere inside arrays and
objects, and how deep inside depends on what it is the type of. For each kind of
data there is one law that says what its parts may take for the whole to fit.

Sections: §1 members · §2 member references · §3 instructions and bodies · §4
modules.
-/

namespace Instrumentation

open Json Value

/-! ## §1  Members -/

namespace Json.Value

variable {n : Nat} {key : String}

theorem nesting_tagged_le_iff {tag : String} {content : Value} :
    (tagged tag content).nesting ≤ n + 1 ↔ content.nesting ≤ n := by
  rw [nesting_tagged, Nat.add_le_add_iff_right]

@[simp] theorem nesting_str (s : String) : (str s).nesting = 0 := rfl

@[simp] theorem nesting_bool (b : Bool) : (bool b).nesting = 0 := rfl

@[simp] theorem nesting_number (x : Option Number) : (number x).nesting = 0 := rfl

theorem nesting_listMember_le_iff {items : List Value} :
    (∀ (k : String) (v : Value), (k, v) ∈ listMember key items → v.nesting ≤ n + 1) ↔
      ∀ v ∈ items, v.nesting ≤ n := by
  rw [← nesting_array_le_iff]
  cases items with
  | nil => simp [listMember, nesting, itemsNesting]
  | cons v vs => simp [listMember]

theorem nesting_textMember_le_iff {s? : Option String} :
    (∀ (k : String) (v : Value), (k, v) ∈ textMember key s? → v.nesting ≤ n) ↔
      True := by
  cases s? <;> simp [textMember]

end Json.Value

/-! ## §2  Member references -/

section

variable {n : Nat}

theorem FieldRef.nesting_le_iff {r : FieldRef} :
    r.toJson.nesting ≤ n + 1 ↔
      r.declaringType.toJson.nesting ≤ n ∧ r.fieldType.toJson.nesting ≤ n := by
  simp [toJson, nesting_record_le_iff]

theorem MethodRef.nesting_le_iff {m : MethodRef} :
    m.toJson.nesting ≤ n + 2 ↔
      m.declaringType.toJson.nesting ≤ n + 1 ∧
      (∀ t ∈ m.params, t.toJson.nesting ≤ n) ∧
      m.returnType.toJson.nesting ≤ n + 1 ∧
      ∀ t ∈ m.genericArgs, t.toJson.nesting ≤ n := by
  simp [toJson, TypeSig.listToJson_eq_map, nesting_record_le_iff,
    nesting_array_le_iff, nesting_listMember_le_iff, nesting_textMember_le_iff,
    or_imp, forall_and]

theorem TypeName.nesting_toJson (d : TypeName) : d.toJson.nesting = 1 := rfl

/-- A type as its own methods see it is named by its parameters alone. -/
theorem TypeDef.nesting_receiverType {β : Type} (t : TypeDef β) :
    t.receiverType.toJson.nesting ≤ 4 := by
  unfold receiverType
  split
  · split <;> simp [TypeSig.toJson, nesting_tagged, TypeName.nesting_toJson]
  · have hargs : ∀ indices : List Nat,
        (array ((indices.map fun i => TypeSig.typeParam (UInt16.ofNat i)).map
          TypeSig.toJson)).nesting ≤ 1 + 1 := by
      intro indices
      simp [nesting_array_le_iff, TypeSig.toJson, nesting_tagged]
    rw [TypeSig.toJson, nesting_tagged_le_iff,
      nesting_record_le_iff, TypeSig.listToJson_eq_map]
    simpa [TypeName.nesting_toJson] using hargs _

end

/-! ## §3  Instructions and bodies -/

def Operand.nesting {ρ : Type} : Operand ρ → Nat
  | .none => 0
  | .type t => t.toJson.nesting + 1
  | .field r => r.toJson.nesting + 1
  | .method m => m.toJson.nesting + 1
  | .switch _ => 2
  | _ => 1

section

variable {ρ : Type} {n : Nat}

@[simp]
theorem Operand.nesting_map {σ : Type} (f : ρ → σ) (o : Operand ρ) :
    (o.map f).nesting = o.nesting := by
  cases o <;> rfl

theorem Operand.nesting_toJson (o : Operand Nat) :
    (o.toJson .nat).nesting = o.nesting := by
  cases o with
  | switch ts =>
    have hts : itemsNesting (ts.map nat) = 0 := by
      rw [← Nat.le_zero, itemsNesting_le_iff]
      simp
    simp [toJson, nesting_tagged, Value.nesting, hts, Operand.nesting]
  | _ => simp [toJson, nesting_tagged, Operand.nesting]

theorem Instruction.nesting_le_iff {i : Instruction Nat} :
    (i.toJson .nat).nesting ≤ n + 1 ↔ i.operand.nesting ≤ n := by
  rw [toJson, nesting_record_le_iff, ← Operand.nesting_toJson]
  obtain ⟨op, operand⟩ := i
  cases operand <;> simp [Operand.shape, Operand.toJson]

theorem StoredBody.nesting_le_iff {s : StoredBody} :
    s.toJson.nesting ≤ n + 3 ↔
      (∀ t ∈ s.locals, t.toJson.nesting ≤ n + 1) ∧
      (∀ i ∈ s.instructions, i.operand.nesting ≤ n) ∧
      ∀ x ∈ s.handlers, (x.toJson .nat).nesting ≤ n + 1 := by
  simp [toJson, TypeSig.listToJson_eq_map, nesting_record_le_iff,
    nesting_array_le_iff, nesting_listMember_le_iff, Instruction.nesting_le_iff,
    or_imp, forall_and]

end

/-! ## §4  Modules -/

section

variable {n : Nat}

theorem MethodDef.nesting_le_iff {m : MethodDef StoredBody} :
    m.toJson.nesting ≤ n + 4 ↔
      (∀ p ∈ m.params, p.paramType.toJson.nesting ≤ n + 1) ∧
      m.returnType.toJson.nesting ≤ n + 3 ∧
      ∀ s ∈ m.body?, s.toJson.nesting ≤ n + 3 := by
  simp [toJson, ParamDef.toJson, nesting_record_le_iff, nesting_array_le_iff,
    nesting_listMember_le_iff, or_imp, forall_and]

theorem TypeDef.nesting_le_iff {t : TypeDef StoredBody} :
    t.toJson.nesting ≤ n + 6 ↔
      (∀ f ∈ t.fields, f.fieldType.toJson.nesting ≤ n + 3) ∧
      ∀ m ∈ t.methods, m.toJson.nesting ≤ n + 4 := by
  simp [toJson, FieldDef.toJson, nesting_record_le_iff, nesting_array_le_iff,
    nesting_listMember_le_iff, or_imp, forall_and]

theorem Module.nesting_le_iff {m : Module StoredBody} :
    m.toJson.nesting ≤ n + 8 ↔ ∀ t ∈ m.types, t.toJson.nesting ≤ n + 6 := by
  simp [toJson, ModuleReference.toJson, nesting_record_le_iff, nesting_array_le_iff,
    nesting_textMember_le_iff, or_imp, forall_and]

end

end Instrumentation
