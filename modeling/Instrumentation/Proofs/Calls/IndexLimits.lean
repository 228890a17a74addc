import Instrumentation.Proofs.Weaving.ControlFlow

/-!
# The numbers in an entry call

An entry call names arguments and a slot by numbers of sixteen bits and the
elements of its array by numbers of thirty-one, and a method may have more of
each than these can say. Such a method has no entry call; which of the two
refusals it gets goes by what is checked first. In every entry call that is made
the numbers are the ones that are meant: no number was cut off on the way into
its machine word.

The receiver takes the first of the argument numbers, so there is room for 65535
parameters. The text of the refusal gives 65534 as the most, which is one less.

Sections: §1 the numbers in a code · §2 the numbers of an entry call · §3 its
limits.
-/

namespace Instrumentation

/-! ## §1  The numbers in a code -/

namespace Operand

variable {ρ : Type}

def argNumber? : Operand ρ → Option Nat
  | .arg n => some n.toNat
  | _ => Option.none

def slotNumber? : Operand ρ → Option Nat
  | .local n => some n.toNat
  | _ => Option.none

def constant? : Operand ρ → Option Int
  | .int32 n => some n.toInt
  | _ => Option.none

/-- A view of operands that looks at numbers only: where an entry call has
anything else it sees nothing. -/
structure SeesNumbers {α : Type} (view : Operand ρ → Option α) : Prop where
  none : view .none = Option.none
  string : ∀ s, view (.string s) = Option.none
  type : ∀ t, view (.type t) = Option.none
  field : ∀ f, view (.field f) = Option.none
  method : ∀ m, view (.method m) = Option.none

theorem seesNumbers_argNumber? : SeesNumbers (argNumber? : Operand ρ → Option Nat) :=
  ⟨rfl, fun _ => rfl, fun _ => rfl, fun _ => rfl, fun _ => rfl⟩

theorem seesNumbers_slotNumber? :
    SeesNumbers (slotNumber? : Operand ρ → Option Nat) :=
  ⟨rfl, fun _ => rfl, fun _ => rfl, fun _ => rfl, fun _ => rfl⟩

theorem seesNumbers_constant? : SeesNumbers (constant? : Operand ρ → Option Int) :=
  ⟨rfl, fun _ => rfl, fun _ => rfl, fun _ => rfl, fun _ => rfl⟩

end Operand

def seen {ρ α : Type} (view : Operand ρ → Option α) (code : List (Instruction ρ)) :
    List α :=
  code.filterMap fun i => view i.operand

theorem seen_append {ρ α : Type} {view : Operand ρ → Option α}
    (front back : List (Instruction ρ)) :
    seen view (front ++ back) = seen view front ++ seen view back :=
  List.filterMap_append

/-! ## §2  The numbers of an entry call -/

section

variable {α β : Type} {view : Operand Handle → Option α}

theorem seen_toObject (hview : Operand.SeesNumbers view) (t : TypeSig) :
    seen view (toObject t) = [] := by
  unfold toObject
  cases t.storage <;> simp [seen, Instruction.onType, hview.type]

/-- Conversions to objects carry nothing but types. -/
theorem seen_asObject (hview : Operand.SeesNumbers view) (t : TypeSig) :
    seen view (asObject t) = [] := by
  by_cases hpointer : ∃ element, t = .byRef element
  · obtain ⟨element, rfl⟩ := hpointer
    rw [asObject_byRef, ← List.singleton_append, seen_append, seen_toObject hview]
    simp [seen, Instruction.onType, hview.type]
  · rw [asObject_of_not_byRef fun element ht => hpointer ⟨element, ht⟩,
      seen_toObject hview]

def packNumbers (slot : UInt16) (ordinal : Nat) : List (Operand Handle) :=
  [.local slot, .int32 (Int32.ofNat ordinal), .arg (UInt16.ofNat (ordinal + 1))]

theorem seen_packArgument (hview : Operand.SeesNumbers view) (slot : UInt16)
    (p : ParamDef) (ordinal : Nat) :
    seen view (packArgument slot p ordinal) =
      (packNumbers slot ordinal).filterMap view := by
  have hlast : seen view [⟨.stelemRef, .none⟩] = [] := by simp [seen, hview.none]
  rw [packArgument, seen_append, seen_append, seen_asObject hview, hlast,
    List.append_nil, List.append_nil]
  rfl

theorem seen_packArguments (hview : Operand.SeesNumbers view) (slot : UInt16)
    (params : List ParamDef) :
    seen view (params.zipIdx.flatMap fun x => packArgument slot x.1 x.2) =
      (List.range params.length).flatMap fun ordinal =>
        (packNumbers slot ordinal).filterMap view := by
  rw [seen, List.filterMap_flatMap, List.range_eq_range',
    ← List.zipIdx_map_snd 0 params, List.flatMap_map]
  exact List.flatMap_congr fun x _ => seen_packArgument hview slot x.1 x.2

theorem seen_entryCode (hview : Operand.SeesNumbers view) (m : MethodDef β)
    (logger : FieldRef) (callable : MethodRef) (slot : UInt16) :
    seen view (entryCode m logger callable slot) =
      [.arg 0, .int32 (Int32.ofNat m.params.length), .local slot].filterMap view
        ++ (List.range m.params.length).flatMap
          (fun ordinal => (packNumbers slot ordinal).filterMap view)
        ++ [.local slot].filterMap view := by
  have hhead : seen view [.ldarg 0, .ldfld logger, .ldstr m.formatText,
        .ldcI4 (Int32.ofNat m.params.length), .onType .newarr .object, .stloc slot] =
      [.arg 0, .int32 (Int32.ofNat m.params.length), .local slot].filterMap view := by
    change [.arg 0, .field logger, .string m.formatText,
      .int32 (Int32.ofNat m.params.length), .type .object,
      .local slot].filterMap view = _
    simp only [List.filterMap_cons, hview.field, hview.string, hview.type]
  have htail :
      seen view [.ldloc slot, .call callable] = [.local slot].filterMap view := by
    change [.local slot, .method callable].filterMap view = _
    simp only [List.filterMap_cons, hview.method]
  rw [entryCode, seen_append, seen_append, hhead, htail, seen_packArguments hview]

variable {m : MethodDef β} {logger : FieldRef} {callable : MethodRef} {slot : UInt16}

/-- The arguments are the receiver and then the parameters, in order. -/
theorem argNumbers_entryCode (hcount : m.params.length < UInt16.size) :
    seen Operand.argNumber? (entryCode m logger callable slot) =
      List.range (m.params.length + 1) := by
  have hnumber : ∀ ordinal ∈ List.range m.params.length,
      (packNumbers slot ordinal).filterMap Operand.argNumber? = [ordinal + 1] := by
    intro ordinal hordinal
    have hfits : ordinal + 1 < UInt16.size :=
      Nat.lt_of_le_of_lt (List.mem_range.mp hordinal) hcount
    exact congrArg (fun n => [n]) (UInt16.toNat_ofNat_of_lt' hfits)
  rw [seen_entryCode Operand.seesNumbers_argNumber?, List.flatMap_congr hnumber,
    List.range_succ_eq_map, ← List.map_eq_flatMap]
  exact List.append_nil _

/-- The slot is named once for the new array, once for every parameter and once
for the call. -/
theorem slotNumbers_entryCode :
    seen Operand.slotNumber? (entryCode m logger callable slot) =
    List.replicate (m.params.length + 2) slot.toNat := by
  have hnumber : ∀ ordinal ∈ List.range m.params.length,
      (packNumbers slot ordinal).filterMap Operand.slotNumber? = [slot.toNat] :=
    fun _ _ => rfl
  rw [seen_entryCode Operand.seesNumbers_slotNumber?, List.flatMap_congr hnumber,
    ← List.map_eq_flatMap]
  change slot.toNat :: (List.range m.params.length).map (fun _ => slot.toNat) ++
    [slot.toNat] = _
  rw [List.map_const', List.length_range, List.cons_append, ← List.replicate_succ',
    ← List.replicate_succ]

/-- The whole numbers are the length of the array and then its indices, in order. -/
theorem constants_entryCode (hcount : m.params.length < 2 ^ 31) :
    seen Operand.constant? (entryCode m logger callable slot) =
      (m.params.length : Int) :: (List.range m.params.length).map Nat.cast := by
  have hnumber : ∀ ordinal ∈ List.range m.params.length,
      (packNumbers slot ordinal).filterMap Operand.constant? = [(ordinal : Int)] := by
    intro ordinal hordinal
    have hfits : ordinal < 2 ^ 31 := Nat.lt_trans (List.mem_range.mp hordinal) hcount
    exact congrArg (fun n => [n]) (Int32.toInt_ofNat_of_lt hfits)
  have hlength : (Int32.ofNat m.params.length).toInt = m.params.length :=
    Int32.toInt_ofNat_of_lt hcount
  rw [seen_entryCode Operand.seesNumbers_constant?, List.flatMap_congr hnumber,
    ← List.map_eq_flatMap]
  change (Int32.ofNat m.params.length).toInt :: List.map _ _ ++ [] = _
  rw [hlength, List.append_nil]

/-- Every argument is packed somewhere, under its own ordinal. -/
theorem packArgument_infix_entryCode {p : ParamDef} {ordinal : Nat}
    (hp : m.params[ordinal]? = some p) :
    packArgument slot p ordinal <:+: entryCode m logger callable slot := by
  have hmem : (p, ordinal) ∈ m.params.zipIdx := List.mk_mem_zipIdx_iff_getElem?.mpr hp
  have hpacks : packArgument slot p ordinal <:+: m.params.zipIdx.flatMap fun x =>
      packArgument slot x.1 x.2 :=
    List.infix_of_mem_flatten (List.mem_map_of_mem hmem)
  exact hpacks.trans (List.infix_append _ _ _)

end

/-! ## §3  Its limits -/

namespace MethodDef

variable {m : MethodDef Body} {logger : FieldRef} {callable : MethodRef}

theorem entryCall_eq_tooManyLocals_iff :
    m.entryCall logger callable = .error (.tooManyLocals m.name) ↔
    m.params.length < 2 ^ 31 ∧ 65535 < m.ownLocals.size := by
  rw [entryCall_eq]
  simp only [UInt16.size]
  split_ifs <;> simp <;> omega

theorem entryCall_eq_tooManyParameters_iff :
    m.entryCall logger callable = .error (.tooManyParameters m.name) ↔
      2 ^ 31 ≤ m.params.length ∨
      m.ownLocals.size ≤ 65535 ∧ 65535 < m.params.length := by
  rw [entryCall_eq]
  simp only [UInt16.size]
  split_ifs <;> simp <;> omega

theorem entryCall_of_fits (hlocals : m.ownLocals.size ≤ 65535)
    (hcount : m.params.length ≤ 65535) :
    m.entryCall logger callable =
      .ok ⟨entryCode m logger callable (UInt16.ofNat m.ownLocals.size),
        [.objects]⟩ := by
  rw [entryCall_eq, if_neg (by omega),
    if_neg (Nat.not_le.mpr (Nat.lt_succ_of_le hlocals)),
    if_neg (Nat.not_le.mpr (Nat.lt_succ_of_le hcount))]

/-- A method has no entry call if its slots or its parameters are more than
sixteen bits can number; parameters beyond thirty-one bits are found out before
the slots, and others after them. In any other entry call the receiver has
number 0 among the arguments and every parameter the number after its ordinal,
the only slot named is the one after the method's own, and the array has a place
for every parameter at its ordinal. -/
theorem entryCall_limits (m : MethodDef Body) (logger : FieldRef)
    (callable : MethodRef) :
    let count := m.params.length
    let slots := m.ownLocals.size
    (m.entryCall logger callable = .error (.tooManyLocals m.name) ↔
      count < 2 ^ 31 ∧ 65535 < slots) ∧
    (m.entryCall logger callable = .error (.tooManyParameters m.name) ↔
      2 ^ 31 ≤ count ∨ slots ≤ 65535 ∧ 65535 < count) ∧
    (slots ≤ 65535 ∧ count ≤ 65535 → ∃ s, m.entryCall logger callable = .ok s ∧
      seen Operand.argNumber? s.instructions = List.range (count + 1) ∧
      seen Operand.slotNumber? s.instructions = List.replicate (count + 2) slots ∧
      seen Operand.constant? s.instructions =
        (count : Int) :: (List.range count).map Nat.cast ∧
      ∀ ordinal p, m.params[ordinal]? = some p →
      ∃ (slot argument : UInt16) (index : Int32),
        slot.toNat = slots ∧ argument.toNat = ordinal + 1 ∧ index.toInt = ordinal ∧
        Instruction.ldloc slot :: .ldcI4 index :: .ldarg argument ::
          (asObject p.paramType ++ [⟨.stelemRef, .none⟩]) <:+: s.instructions) := by
  intro count slots
  refine ⟨entryCall_eq_tooManyLocals_iff, entryCall_eq_tooManyParameters_iff, ?_⟩
  rintro ⟨hlocals, hcount⟩
  have hslot : (UInt16.ofNat slots).toNat = slots :=
    UInt16.toNat_ofNat_of_lt' (Nat.lt_succ_of_le hlocals)
  have hsixteen : count < UInt16.size := Nat.lt_succ_of_le hcount
  refine ⟨_, entryCall_of_fits hlocals hcount,
    argNumbers_entryCode hsixteen, ?_, ?_, ?_⟩
  · rw [slotNumbers_entryCode, hslot]
  · exact constants_entryCode (Nat.lt_of_le_of_lt hcount (by decide))
  · intro ordinal p hp
    have hordinal : ordinal < count := (List.getElem?_eq_some_iff.mp hp).1
    refine ⟨UInt16.ofNat slots, UInt16.ofNat (ordinal + 1), Int32.ofNat ordinal,
      hslot, ?_, ?_, packArgument_infix_entryCode hp⟩
    · exact UInt16.toNat_ofNat_of_lt' (Nat.lt_of_le_of_lt hordinal hsixteen)
    · exact Int32.toInt_ofNat_of_lt (by omega)

end MethodDef

def crowdedMethod (params locals : Nat) : MethodDef Body :=
  { name := "Crowd", visibility := .publicAccess, isStatic := false,
    genericParams := []
    params := List.replicate params ⟨"p", .primitive .int32⟩, returnType := .void
    body? := some
      { Body.waiting with locals := Array.replicate locals (.primitive .int32) } }

theorem length_params_crowdedMethod (params locals : Nat) :
    (crowdedMethod params locals).params.length = params := List.length_replicate

theorem size_ownLocals_crowdedMethod (params locals : Nat) :
    (crowdedMethod params locals).ownLocals.size = locals := Array.size_replicate

/-- The last methods that have an entry call, and the first ones that have none. -/
theorem entryCall_limits_crowded :
    (crowdedMethod 65535 65536).entryCall sampleLogger logInformation =
      .error (.tooManyLocals "Crowd") ∧
    (crowdedMethod 65536 65535).entryCall sampleLogger logInformation =
      .error (.tooManyParameters "Crowd") ∧
    ∃ s, (crowdedMethod 65535 65535).entryCall sampleLogger logInformation = .ok s ∧
      seen Operand.argNumber? s.instructions = List.range 65536 ∧
      seen Operand.slotNumber? s.instructions = List.replicate 65537 65535 := by
  have hlocals :=
    (crowdedMethod 65535 65536).entryCall_limits sampleLogger logInformation
  have hparams :=
    (crowdedMethod 65536 65535).entryCall_limits sampleLogger logInformation
  have hboth :=
    (crowdedMethod 65535 65535).entryCall_limits sampleLogger logInformation
  simp only [length_params_crowdedMethod, size_ownLocals_crowdedMethod,
    Nat.reduceAdd] at hlocals hparams hboth
  obtain ⟨s, hok, hargs, hslots, -⟩ := hboth.2.2 (by decide)
  exact ⟨hlocals.1.mpr (by decide), hparams.2.1.mpr (by decide), s, hok,
    hargs, hslots⟩

/-- A method may have one parameter more than the refusal says and still has an
entry call. -/
theorem crowdedMethod_not_refused :
    ¬ ∀ (m : MethodDef Body) (logger : FieldRef) (callable : MethodRef),
    m.params.length < 2 ^ 31 →
      (m.entryCall logger callable = .error (.tooManyParameters m.name) ↔
      m.ownLocals.size ≤ 65535 ∧ 65534 < m.params.length) := by
  intro halways
  have hiff := halways (crowdedMethod 65535 0) sampleLogger logInformation
  rw [MethodDef.entryCall_eq_tooManyParameters_iff,
    length_params_crowdedMethod, size_ownLocals_crowdedMethod] at hiff
  have hrefused := (hiff (by decide)).mpr (by decide)
  omega

end Instrumentation
