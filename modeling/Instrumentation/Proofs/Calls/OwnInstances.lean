import Instrumentation.LoggerField
import Mathlib.Data.List.Nodup

/-!
# Types over their own parameters

A generic type names itself, in the references that its own methods make, as the
instance over its own generic parameters: `Cache<!0,!1>` inside of `Cache<K,V>`.
The parameters are numbered by sixteen-bit indices, and their number is cut off
to sixteen bits, too. So the instance has one argument per parameter as long as
there are fewer than 65536 of them; a type with that many has an instance over
nothing.

Sections: §1 the first generic parameters · §2 the type as its methods see it.
-/

namespace Instrumentation

/-! ## §1  The first generic parameters -/

/-- Type arguments that are the generic parameters of the enclosing type
themselves, each once and in order. -/
structure AreOwnParams (args : List TypeSig) (count : Nat) : Prop where
  length : args.length = count
  param : ∀ i < count, ∃ index : UInt16,
    args[i]? = some (.typeParam index) ∧ index.toNat = i
  distinct : args.Nodup

theorem areOwnParams_range {count : Nat} (hcount : count ≤ UInt16.size) :
    AreOwnParams ((List.range count).map fun i => .typeParam (UInt16.ofNat i))
      count := by
  have hindex {i : Nat} (hi : i < count) : (UInt16.ofNat i).toNat = i :=
    UInt16.toNat_ofNat_of_lt' (Nat.lt_of_lt_of_le hi hcount)
  refine ⟨by simp, ?_, ?_⟩
  · intro i hi
    exact ⟨UInt16.ofNat i, by simp [hi], hindex hi⟩
  · refine List.Nodup.map_on ?_ List.nodup_range
    intro i hi j hj heq
    have hsame := congrArg UInt16.toNat (TypeSig.typeParam.inj heq)
    rwa [hindex (List.mem_range.mp hi), hindex (List.mem_range.mp hj)] at hsame

/-! ## §2  The type as its methods see it -/

def TypeSig.typeArgs : TypeSig → List TypeSig
  | .generic _ _ args => args
  | _ => []

namespace TypeDef

variable {β : Type} {t : TypeDef β}

theorem receiverType_of_not_generic (hnone : t.genericParams.length = 0) :
    t.receiverType =
      if t.isValueType then .value t.typeName else .reference t.typeName := by
  have hempty : t.genericParams.isEmpty = true := by simpa using hnone
  rw [receiverType, if_pos hempty]

theorem exists_receiverType_of_generic (hsome : 0 < t.genericParams.length) :
    ∃ args,
      t.receiverType = .generic t.typeName t.isValueType args ∧
        AreOwnParams args (t.genericParams.length % UInt16.size) := by
  have hempty : ¬ t.genericParams.isEmpty = true := by
    simpa [← List.length_pos_iff] using hsome
  have hcount : t.genericParams.length % UInt16.size < UInt16.size :=
    Nat.mod_lt _ (by decide)
  exact ⟨_, by rw [receiverType, if_neg hempty],
    areOwnParams_range (Nat.le_of_lt hcount)⟩

theorem length_typeArgs_receiverType (t : TypeDef β) :
    t.receiverType.typeArgs.length = t.genericParams.length % UInt16.size := by
  rcases Nat.eq_zero_or_pos t.genericParams.length with hnone | hsome
  · rw [receiverType_of_not_generic hnone, hnone]
    split <;> rfl
  · obtain ⟨args, hargs, hown⟩ := exists_receiverType_of_generic hsome
    rw [hargs]
    exact hown.length

/-- Inside of a type that is not generic the type is its name, and inside of one
that is it is the instance over its own generic parameters, as many of them as
sixteen bits can count: over all of them if and only if there are fewer than
65536. The same holds of the references to its fields. -/
theorem receiverType_own_instance (t : TypeDef β) :
    let count := t.genericParams.length
    (count = 0 → t.receiverType =
      if t.isValueType then .value t.typeName else .reference t.typeName) ∧
    (0 < count → ∃ args, t.receiverType = .generic t.typeName t.isValueType args ∧
      AreOwnParams args (count % 65536) ∧ (AreOwnParams args count ↔ count < 65536)) ∧
    ∀ f, (t.ownFieldRef f).declaringType = t.receiverType ∧
      ((t.ownFieldRef f).declaringType.typeArgs.length = count ↔ count < 65536) := by
  intro count
  have hwrap : count % 65536 = count ↔ count < 65536 := Nat.mod_eq_iff_lt (by decide)
  refine ⟨receiverType_of_not_generic, ?_, ?_⟩
  · intro hsome
    obtain ⟨args, hargs, hown⟩ := exists_receiverType_of_generic hsome
    refine ⟨args, hargs, hown, ?_⟩
    rw [← hwrap]
    constructor
    · exact fun hall => hown.length.symm.trans hall.length
    · exact fun hcount => hcount ▸ hown
  · intro f
    have hlength : (t.ownFieldRef f).declaringType.typeArgs.length = count % 65536 :=
      t.length_typeArgs_receiverType
    exact ⟨rfl, by rw [hlength, hwrap]⟩

end TypeDef

def genericHub (genericParams : List String) : TypeDef Body :=
  { space := "App", name := "Hub", isValueType := false, genericParams, fields := [],
    methods := [] }

theorem receiverType_own_instance_hub :
    ∃ args,
      (genericHub ["K", "V"]).receiverType = .generic ⟨"App", "Hub"⟩ false args ∧
      AreOwnParams args 2 := by
  obtain ⟨args, hargs, -, hall⟩ :=
    ((genericHub ["K", "V"]).receiverType_own_instance).2.1 (by decide)
  exact ⟨args, hargs, hall.mpr (by decide)⟩

example : (genericHub ["K", "V"]).receiverType.typeArgs =
    [.typeParam 0, .typeParam 1] := by decide

/-- A type with as many parameters as there are indices for them is not
instantiated over any. -/
theorem crowded_hub_over_nothing : ¬ ∀ t : TypeDef Body, 0 < t.genericParams.length →
    ∃ args, t.receiverType = .generic t.typeName t.isValueType args ∧
      AreOwnParams args t.genericParams.length := by
  intro halways
  have hcount :
      (genericHub (List.replicate 65536 "T")).genericParams.length = 65536 :=
    List.length_replicate
  obtain ⟨args, hargs, hown⟩ :=
    halways (genericHub (List.replicate 65536 "T")) (by rw [hcount]; decide)
  have hlength := (genericHub (List.replicate 65536 "T")).length_typeArgs_receiverType
  rw [hargs, hcount] at hlength
  exact absurd (hown.length.symm.trans hlength) (by rw [hcount]; decide)

end Instrumentation
