import Instrumentation.Proofs.Calls.PackedArguments
import Instrumentation.Proofs.Typing.StackActions

/-!
# The types that an entry call passes

Three notions say what a type is like: whether its values have to be boxed,
whether they are objects on the operand stack, and what is left of it once a
pointer has been followed. The conversion of an argument goes by the first and
the last, typing goes by the second, and they agree on every type that is not a
pointer. So an argument becomes an object whatever its type is, as long as
following one pointer leads to something other than a pointer; and where it
leads to a pointer again, neither boxing nor a cast will take it.

Sections: §1 refused pointers · §2 kinds · §3 conversions · §4 packing · §5 the
entry call.
-/

namespace Instrumentation

/-! ## §1  Refused pointers -/

namespace StackTyping

/-- Typing ends at a pointer that is not wanted. -/
def RefusesPointer (result : Except VerifyError KindStack) : Prop :=
  ∃ position wanted, result = .error (.typeMismatch position wanted .managedPtr)

theorem RefusesPointer.bind {result : Except VerifyError KindStack}
    (hresult : RefusesPointer result)
    (next : KindStack → Except VerifyError KindStack) :
    RefusesPointer (result.bind next) := by
  obtain ⟨q, wanted, rfl⟩ := hresult
  exact ⟨q, wanted, rfl⟩

end StackTyping

/-! ## §2  Kinds -/

namespace TypeSig

variable {t : TypeSig}

def IsPointerToPointer (t : TypeSig) : Prop := ∃ element, t = .byRef (.byRef element)

theorem stackKind_ne_managedPtr (ht : ∀ element, t ≠ .byRef element) :
    t.stackKind ≠ .managedPtr := by
  cases t with
  | byRef element => exact absurd rfl (ht element)
  | primitive p => cases p <;> decide
  | generic definition isValue args =>
      cases isValue <;> simp [stackKind, isValueType, isGenericParam]
  | _ => simp [stackKind, isValueType, isGenericParam]

/-- What is not boxed is an object. -/
theorem stackKind_of_storage (ht : ∀ element, t ≠ .byRef element)
    (hstorage : t.storage = .reference) : t.stackKind = .objectRef := by
  cases t with
  | byRef element => exact absurd rfl (ht element)
  | primitive p => cases p <;> first | rfl | exact absurd hstorage (by decide)
  | generic definition isValue args =>
      cases isValue with
      | false => rfl
      | true => exact absurd hstorage (by simp [storage, isValueType])
  | value name => exact absurd hstorage (by simp [storage, isValueType])
  | typeParam index =>
      exact absurd hstorage (by simp [storage, isValueType, isGenericParam])
  | methodParam index =>
      exact absurd hstorage (by simp [storage, isValueType, isGenericParam])
  | reference name => rfl
  | array element => rfl

end TypeSig

/-! ## §3  Conversions -/

namespace StackTyping

variable {args locals : Array TypeSig} {position : Nat}
  {stack : KindStack} {t : TypeSig}

theorem run_toObject (ht : ∀ element, t ≠ .byRef element) :
    run args locals position (toObject t) (t.stackKind :: stack) =
      .ok (.objectRef :: stack) := by
  rw [toObject]
  cases hstorage : t.storage with
  | value =>
      have hbox : step args locals position (.onType .box t : Instruction Handle)
          (t.stackKind :: stack) =
          if t.stackKind = .managedPtr then
            .error (.typeMismatch position .value t.stackKind)
          else .ok (.objectRef :: stack) := rfl
      rw [if_neg (TypeSig.stackKind_ne_managedPtr ht)] at hbox
      exact run_cons_of_ok hbox
  | reference =>
      rw [TypeSig.stackKind_of_storage ht hstorage]
      rfl

/-- Neither boxing nor a cast takes a pointer. -/
theorem run_toObject_byRef (element : TypeSig) :
    RefusesPointer (run args locals position (toObject (.byRef element))
      (.managedPtr :: stack)) := by
  rw [toObject]
  cases (TypeSig.byRef element).storage with
  | value => exact ⟨position, .value, rfl⟩
  | reference => exact ⟨position, .objectRef, rfl⟩

theorem run_asObject (ht : ¬ t.IsPointerToPointer) :
    run args locals position (asObject t) (t.stackKind :: stack) =
      .ok (.objectRef :: stack) := by
  by_cases hpointer : ∃ element, t = .byRef element
  · obtain ⟨element, rfl⟩ := hpointer
    have hload :
        step args locals position (.onType .ldobj element : Instruction Handle)
          ((TypeSig.byRef element).stackKind :: stack) =
        .ok (element.stackKind :: stack) := rfl
    rw [asObject_byRef, run_cons_of_ok hload]
    exact run_toObject fun inner helement =>
      ht ⟨inner, congrArg TypeSig.byRef helement⟩
  · have hother : ∀ element, t ≠ .byRef element :=
      fun element ht => hpointer ⟨element, ht⟩
    rw [asObject_of_not_byRef hother]
    exact run_toObject hother

theorem run_asObject_refuses (ht : t.IsPointerToPointer) :
    RefusesPointer (run args locals position (asObject t)
      (t.stackKind :: stack)) := by
  obtain ⟨element, rfl⟩ := ht
  have hload :
      step args locals position (.onType .ldobj (.byRef element) : Instruction Handle)
        ((TypeSig.byRef (.byRef element)).stackKind :: stack) =
      .ok (.managedPtr :: stack) := rfl
  rw [asObject_byRef, run_cons_of_ok hload]
  exact run_toObject_byRef element

/-! ## §4  Packing -/

theorem step_ldarg {n : Nat} (hn : n < UInt16.size) (ht : args[n]? = some t) :
    step args locals position (.ldarg (UInt16.ofNat n) : Instruction Handle) stack =
      .ok (t.stackKind :: stack) := by
  have hslot : argType args position (UInt16.ofNat n) = .ok t := by
    rw [argType, UInt16.toNat_ofNat_of_lt' hn, ht]
  change ((argType args position (UInt16.ofNat n)).bind fun t =>
    .ok (t.stackKind :: stack)) = _
  rw [hslot]
  rfl

theorem localType_eq_ok {n : Nat} (hn : n < UInt16.size) (ht : locals[n]? = some t) :
    localType locals position (UInt16.ofNat n) = .ok t := by
  rw [localType, UInt16.toNat_ofNat_of_lt' hn, ht]

theorem step_ldloc {n : Nat} (hn : n < UInt16.size)
    (ht : locals[n]? = some .objects) :
    step args locals position (.ldloc (UInt16.ofNat n) : Instruction Handle) stack =
      .ok (.objectRef :: stack) := by
  change ((localType locals position (UInt16.ofNat n)).bind fun t =>
    .ok (t.stackKind :: stack)) = _
  rw [localType_eq_ok hn ht]
  rfl

theorem step_stloc {n : Nat} (hn : n < UInt16.size)
    (ht : locals[n]? = some .objects) :
    step args locals position (.stloc (UInt16.ofNat n) : Instruction Handle)
      (.objectRef :: stack) =
      .ok stack := by
  change ((localType locals position (UInt16.ofNat n)).bind fun t =>
    takeKinds position [t.stackKind] (.objectRef :: stack)) = _
  rw [localType_eq_ok hn ht]
  rfl

section

variable {n ordinal : Nat} {p : ParamDef}

/-- Packing an argument comes down to its conversion over the array and the
index. -/
theorem run_packArgument (hn : n < UInt16.size) (hordinal : ordinal + 1 < UInt16.size)
    (hslot : locals[n]? = some .objects)
    (ht : args[ordinal + 1]? = some p.paramType) :
    run args locals position (packArgument (UInt16.ofNat n) p ordinal) stack =
      (run args locals (position + 3) (asObject p.paramType)
        (p.paramType.stackKind :: .int32 :: .objectRef :: stack)).bind
        (run args locals (position + 3 + (asObject p.paramType).length)
          ([⟨.stelemRef, .none⟩] : List (Instruction Handle))) := by
  rw [packArgument, List.append_assoc, List.cons_append, List.cons_append,
    List.cons_append, List.nil_append, run_cons_of_ok (step_ldloc hn hslot),
    run_cons_of_ok rfl, run_cons_of_ok (step_ldarg hordinal ht), run_append]

theorem run_packArgument_ok (hn : n < UInt16.size)
    (hordinal : ordinal + 1 < UInt16.size) (hslot : locals[n]? = some .objects)
    (harg : args[ordinal + 1]? = some p.paramType)
    (ht : ¬ p.paramType.IsPointerToPointer) :
    run args locals position (packArgument (UInt16.ofNat n) p ordinal) stack =
      .ok stack := by
  rw [run_packArgument hn hordinal hslot harg, run_asObject ht]
  rfl

theorem run_packArgument_refuses (hn : n < UInt16.size)
    (hordinal : ordinal + 1 < UInt16.size) (hslot : locals[n]? = some .objects)
    (harg : args[ordinal + 1]? = some p.paramType)
    (ht : p.paramType.IsPointerToPointer) :
    RefusesPointer (run args locals position
      (packArgument (UInt16.ofNat n) p ordinal) stack) := by
  rw [run_packArgument hn hordinal hslot harg]
  exact (run_asObject_refuses ht).bind _

end

/-- Packing the parameters from an ordinal on leaves the stack as it was, or
ends at the first pointer to a pointer. -/
theorem run_packArguments {n : Nat} (hn : n < UInt16.size)
    (hslot : locals[n]? = some .objects) (stack : KindStack) :
    ∀ (params : List ParamDef) (ordinal position : Nat),
      ordinal + params.length < UInt16.size →
      args.toList.drop (ordinal + 1) = params.map (·.paramType) →
      let result := run args locals position
        ((params.zipIdx ordinal).flatMap fun x =>
          packArgument (UInt16.ofNat n) x.1 x.2) stack
      ((∀ p ∈ params, ¬ p.paramType.IsPointerToPointer) → result = .ok stack) ∧
      ((∃ p ∈ params, p.paramType.IsPointerToPointer) → RefusesPointer result)
  | [], _, _, _, _ => ⟨fun _ => rfl, fun ⟨_, hp, _⟩ => nomatch hp⟩
  | p :: params, ordinal, position, hsize, hargs => by
      rw [List.length_cons] at hsize
      have harg : args[ordinal + 1]? = some p.paramType := by
        rw [← Array.getElem?_toList, ← List.head?_drop, hargs,
          List.map_cons, List.head?_cons]
      have hrest : args.toList.drop (ordinal + 1 + 1) = params.map (·.paramType) := by
        rw [← List.drop_drop, hargs, List.map_cons, List.drop_one, List.tail_cons]
      have hordinal : ordinal + 1 < UInt16.size := by omega
      obtain ⟨hnext, hends⟩ := run_packArguments hn hslot stack params (ordinal + 1)
        (position + (packArgument (UInt16.ofNat n) p ordinal).length) (by omega) hrest
      simp only [List.zipIdx_cons, List.flatMap_cons, List.forall_mem_cons]
      constructor
      · rintro ⟨hp, hall⟩
        rw [run_append_of_ok (run_packArgument_ok hn hordinal hslot harg hp)]
        exact hnext hall
      · rintro ⟨q, hq, hpointer⟩
        by_cases hp : p.paramType.IsPointerToPointer
        · rw [run_append]
          exact (run_packArgument_refuses hn hordinal hslot harg hp).bind _
        · rw [run_append_of_ok (run_packArgument_ok hn hordinal hslot harg hp)]
          rcases List.mem_cons.mp hq with rfl | hq
          · exact absurd hpointer hp
          · exact hends ⟨q, hq, hpointer⟩

/-! ## §5  The entry call -/

/-- A call of a method that takes three objects and gives nothing. -/
theorem step_call {callable : MethodRef} (hstatic : callable.hasThis = false)
    (hvoid : callable.returnType = .void)
    (hparams : callable.params.map TypeSig.stackKind =
      [.objectRef, .objectRef, .objectRef]) :
    step args locals position (.call callable : Instruction Handle)
      [.objectRef, .objectRef, .objectRef] =
      .ok [] := by
  change call position callable [.objectRef, .objectRef, .objectRef] = _
  rw [call, List.map_reverse, hparams, hstatic, MethodRef.returnsValue, hvoid]
  rfl

/-- Up to the packing, typing finds the logger, the format text and the new
array. -/
theorem run_entryFront_head {m : MethodDef Body} {logger : FieldRef}
    {receiver : TypeSig} {n : Nat} (hn : n < UInt16.size)
    (hreceiver : args[0]? = some receiver) (hslot : locals[n]? = some .objects)
    (hlogger : logger.fieldType.stackKind = .objectRef) :
    run args locals 0 ([.ldarg 0, .ldfld logger, .ldstr m.formatText,
      .ldcI4 (Int32.ofNat m.params.length), .onType .newarr .object,
      .stloc (UInt16.ofNat n)] : List (Instruction Handle)) [] =
      .ok [.objectRef, .objectRef] := by
  have hfield : step args locals 1 (.ldfld logger : Instruction Handle)
      [receiver.stackKind] =
      .ok [.objectRef] := by
    rw [← hlogger]
    rfl
  have hzero : step args locals 0 (.ldarg 0 : Instruction Handle) [] =
      .ok [receiver.stackKind] :=
    step_ldarg (by decide) hreceiver
  rw [run_cons_of_ok hzero, run_cons_of_ok hfield, run_cons_of_ok rfl,
    run_cons_of_ok rfl, run_cons_of_ok rfl, run_cons_of_ok (step_stloc hn hslot)]
  rfl

end StackTyping

/-- What typing makes of an insertion at the start of a method: the receiver and
the parameters are in the argument slots, and the new slots come after the
method's own. -/
def MethodDef.typed (m : MethodDef Body) (receiver : TypeSig) (s : Insertion) :
    Except VerifyError (List StackKind) :=
  StackTyping.finalStack s.instructions (receiver :: m.paramTypes).toArray
    (m.ownLocals ++ s.newLocals.toArray)

/-- The tail of an entry call: the array is loaded, and the call takes all there
is. -/
theorem StackTyping.run_entryCode_tail {args locals : Array TypeSig}
    {position n : Nat} {callable : MethodRef} (hn : n < UInt16.size)
    (hslot : locals[n]? = some .objects) (hstatic : callable.hasThis = false)
    (hvoid : callable.returnType = .void)
    (hparams : callable.params.map TypeSig.stackKind =
      [.objectRef, .objectRef, .objectRef]) :
    run args locals position
      ([.ldloc (UInt16.ofNat n), .call callable] : List (Instruction Handle))
      [.objectRef, .objectRef] = .ok [] := by
  rw [run_cons_of_ok (step_ldloc hn hslot),
    run_cons_of_ok (step_call hstatic hvoid hparams)]
  rfl

/-- Typing accepts the entry call of a method, and finds nothing left on the
stack, if and only if no parameter is a pointer to a pointer; such a parameter
is refused as a pointer where a value or an object is wanted. The logger has to
be an object, and the call has to take three objects and give nothing. -/
theorem MethodDef.typed_entryCall_iff (m : MethodDef Body) (logger : FieldRef)
    (callable : MethodRef) (s : Insertion) (receiver : TypeSig)
    (hok : m.entryCall logger callable = .ok s)
    (hlogger : logger.fieldType.stackKind = .objectRef)
    (hstatic : callable.hasThis = false) (hvoid : callable.returnType = .void)
    (hparams : callable.params.map TypeSig.stackKind =
      [.objectRef, .objectRef, .objectRef]) :
    (m.typed receiver s = .ok [] ↔
      ∀ p ∈ m.params, ∀ t, p.paramType ≠ .byRef (.byRef t)) ∧
    ((∃ p ∈ m.params, ∃ t, p.paramType = .byRef (.byRef t)) → ∃ position wanted,
      m.typed receiver s = .error (.typeMismatch position wanted .managedPtr)) := by
  obtain ⟨hcount, hn, rfl⟩ := eq_of_entryCall hok
  let args : Array TypeSig := (receiver :: m.paramTypes).toArray
  let locals : Array TypeSig := m.ownLocals ++ [TypeSig.objects].toArray
  let packs := m.params.zipIdx.flatMap fun x =>
    packArgument (UInt16.ofNat m.ownLocals.size) x.1 x.2
  have hslot : locals[m.ownLocals.size]? = some .objects := by simp [locals]
  have hreceiver : args[0]? = some receiver := by simp [args]
  have hargs : args.toList.drop (0 + 1) = m.params.map (·.paramType) := by
    simp [args, paramTypes]
  have hhead := StackTyping.run_entryFront_head (m := m) hn hreceiver hslot hlogger
  obtain ⟨haccepts, hrefuses⟩ := StackTyping.run_packArguments hn hslot
    [.objectRef, .objectRef] m.params 0 6 (by omega) hargs
  have htyped : m.typed receiver
      ⟨entryCode m logger callable (UInt16.ofNat m.ownLocals.size), [.objects]⟩ =
      ((StackTyping.run args locals 6 packs [.objectRef, .objectRef]).bind
        (StackTyping.run args locals (6 + packs.length)
          ([.ldloc (UInt16.ofNat m.ownLocals.size), .call callable] :
            List (Instruction Handle)))).map List.reverse := by
    rw [typed, StackTyping.finalStack, entryCode, List.append_assoc,
      StackTyping.run_append_of_ok hhead, StackTyping.run_append]
    rfl
  rw [htyped]
  have hgood : (∀ p ∈ m.params, ¬ p.paramType.IsPointerToPointer) →
      StackTyping.run args locals 6 packs [.objectRef, .objectRef] =
        .ok [.objectRef, .objectRef] := haccepts
  have hbad : (∃ p ∈ m.params, p.paramType.IsPointerToPointer) → ∃ position wanted,
      StackTyping.run args locals 6 packs [.objectRef, .objectRef] =
        .error (.typeMismatch position wanted .managedPtr) := hrefuses
  refine ⟨⟨fun htypes p hp t ht => ?_, fun hnone => ?_⟩, fun hpointer => ?_⟩
  · obtain ⟨position, wanted, hrun⟩ := hbad ⟨p, hp, t, ht⟩
    rw [hrun] at htypes
    simp [Except.bind, Except.map] at htypes
  · have hfree : ∀ p ∈ m.params, ¬ p.paramType.IsPointerToPointer := by
      rintro p hp ⟨t, ht⟩
      exact hnone p hp t ht
    rw [hgood hfree, Except.bind,
      StackTyping.run_entryCode_tail hn hslot hstatic hvoid hparams]
    rfl
  · obtain ⟨position, wanted, hrun⟩ := hbad hpointer
    exact ⟨position, wanted, by rw [hrun]; rfl⟩

def placingMethod : MethodDef Body :=
  { countingMethod with
    params := [⟨"step", .primitive .int32⟩, ⟨"place", .byRef (.byRef .string)⟩] }

theorem typed_entryCall_counting :
    countingMethod.typed (.reference ⟨"App", "Service"⟩)
      ⟨entryCode countingMethod sampleLogger logInformation 1, [.objects]⟩ = .ok [] ∧
    ∃ position wanted, placingMethod.typed (.reference ⟨"App", "Service"⟩)
      ⟨entryCode placingMethod sampleLogger logInformation 1, [.objects]⟩ =
        .error (.typeMismatch position wanted .managedPtr) := by
  have hcounting := countingMethod.typed_entryCall_iff sampleLogger logInformation
    ⟨entryCode countingMethod sampleLogger logInformation 1, [.objects]⟩
    (.reference ⟨"App", "Service"⟩) rfl rfl
    rfl rfl rfl
  have hplacing := placingMethod.typed_entryCall_iff sampleLogger logInformation
    ⟨entryCode placingMethod sampleLogger logInformation 1, [.objects]⟩
    (.reference ⟨"App", "Service"⟩) rfl rfl
    rfl rfl rfl
  refine ⟨hcounting.1.mpr (by simp [countingMethod]), hplacing.2 ?_⟩
  exact ⟨⟨"place", .byRef (.byRef .string)⟩, .tail _ (.head _), .string, rfl⟩

end Instrumentation
