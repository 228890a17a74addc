import Instrumentation.Proofs.Json.Decoding
import Instrumentation.Proofs.Stored.Renaming
import Instrumentation.Stored.Module

/-!
# Stored modules are read back

What is written of a module is read as that module if every body can be loaded
and there is room for its nesting, and is malformed where there is not. Each
kind of data has its law: what its encoder leaves out is what its decoder takes
for granted, and its decoder enters no level that the encoder did not write.

Sections: §1 type signatures · §2 slots that may be empty · §3 instructions · §4
bodies · §5 modules · §6 what is read can be loaded.
-/

namespace Instrumentation

open Json

/-! ## §1  Type signatures -/

theorem TypeName.reads (n : TypeName) : TypeName.decode.Reads n.toJson n := by
  refine Decode.reads_structure [("namespace", some (.str n.space)),
    ("name", some (.str n.name))] rfl (by decide) fun f hf => ?_
  refine Gather.Reads.congr
    (((hf.given (by simp) (Decode.reads_string _ _)).map TypeName.mk).seq
    (hf.given (by simp) (Decode.reads_string _ _))) ?_
  simp [SlotsFit]

theorem Primitive.ofKey?_key (p : Primitive) : ofKey? p.key = some p := by
  cases p <;> decide

namespace TypeSig

variable (source : Source)

theorem reads_primitive (p : Primitive) :
    (decode source).Reads (.str p.key) (.primitive p) := by
  refine Decode.reads_of_leaf rfl fun room => ?_
  cases room <;> simp [decode, decode.primitive, Primitive.ofKey?_key]

/-- The arguments of an instance, as its decoder reads them with room left for
`room` levels in each. -/
def decodeArgs (room : Nat) : Decode (List TypeSig)
  | _, .array items => items.mapM fun item => decode source room item
  | _, _ => .error .malformed

theorem decode_generic (room : Nat) (ms : List (String × Value)) :
    decode source (room + 3) (.tagged "generic_inst" (.record ms)) =
      Decode.structure ["definition", "value_type", "args"] (fun f =>
        TypeSig.generic <$> f.required "definition" TypeName.decode
          <*> f.read "value_type" (some false) Decode.bool
          <*> f.required "args" (decodeArgs source room)) (room + 2) (.record ms) :=
  Decode.variantFields_record source _ _ _ ms

theorem decode_generic_shallow {room : Nat} (hroom : room < 3)
    (ms : List (String × Value)) :
    decode source room (.tagged "generic_inst" (.record ms)) = .error .malformed := by
  have hnone (left : Nat) :
      Decode.structure [] (fun _ => (.fault 0 .malformed : Gather TypeSig)) left
        (.record ms) = .error .malformed := by
    have hfault (f : Fields) :
        ((.fault 0 .malformed : Gather TypeSig) <* f.sound).toExcept =
        .error .malformed := by
      unfold Fields.sound
      cases f.flaw? <;> rfl
    cases left with
    | zero => rfl
    | succ left => exact hfault _
  match room with
  | 0 => rfl
  | 1 => exact (Decode.variantFields_record source _ _ _ ms).trans (hnone 0)
  | 2 => exact (Decode.variantFields_record source _ _ _ ms).trans (hnone 1)

mutual

theorem reads : ∀ t : TypeSig, (decode source).Reads t.toJson t
  | .primitive p => reads_primitive source p
  | .reference n => Decode.reads_tagged rfl fun room => (TypeName.reads n room).map _
  | .value n => Decode.reads_tagged rfl fun room => (TypeName.reads n room).map _
  | .array e => Decode.reads_tagged rfl fun room => (reads e room).map _
  | .byRef e => Decode.reads_tagged rfl fun room => (reads e room).map _
  | .typeParam i =>
      Decode.reads_tagged rfl fun room => (Decode.reads_uint16 i room).map _
  | .methodParam i =>
      Decode.reads_tagged rfl fun room => (Decode.reads_uint16 i room).map _
  | .generic d isValue args => by
    let slots : List Slot :=
      [("definition", some d.toJson), ("value_type", some (.bool isValue)),
        ("args", some (.array (listToJson args)))]
    refine Decode.reads_tagged rfl fun room => ?_
    by_cases hroom : room < 2
    · refine ⟨fun hfits => ?_, fun _ => decode_generic_shallow source (by omega) _⟩
      -- the name of the generic type is an object inside the object inside the
      -- variant
      have hslots : SlotsFit slots 0 :=
        nesting_present_le_iff.mp (Nat.le_trans hfits (by omega))
      exact absurd (hslots ("definition", some d.toJson) (by simp [slots])
        d.toJson rfl) (Nat.not_succ_le_zero 0)
    · obtain ⟨room, rfl⟩ := Nat.exists_eq_add_of_le' (Nat.not_lt.mp hroom)
      have hargs :
          Answers (decodeArgs source room (room + 1) (.array (listToJson args))) args
            ((Value.array (listToJson args)).nesting ≤ room + 1) := by
        rw [listToJson_eq_map]
        refine (answers_mapM fun t ht => reads_each args t ht room).congr ?_
        rw [Value.nesting_array_le_iff, List.forall_mem_map]
      have hcontent :
          Answers
            (decode source (room + 3)
              (.tagged "generic_inst" (.record (present slots))))
            (.generic d isValue args) (SlotsFit slots (room + 1)) := by
        rw [decode_generic]
        refine Decode.answers_structure slots rfl (by decide) fun f hf hroom => ?_
        refine Gather.Reads.congr
          ((((hf.given (by simp [slots]) (TypeName.reads d _)).map _).seq
            (hf.given (by simp [slots]) (Decode.reads_bool _ _))).seq
            (hf.given (by simp [slots]) (hroom ▸ hargs))) ?_
        simp only [slots, slotsFit_cons, slotsFit_nil, hroom, Option.mem_def,
          Option.some.injEq, forall_eq', and_true, and_assoc]
      exact hcontent.congr nesting_present_le_iff.symm

theorem reads_each : ∀ ts : List TypeSig, ∀ t ∈ ts, (decode source).Reads t.toJson t
  | [] => by simp
  | t :: ts => List.forall_mem_cons.mpr ⟨reads t, reads_each ts⟩

end

end TypeSig

/-! ## §2  Slots that may be empty -/

def listSlot (items : List Value) : Option Value :=
  if items.isEmpty then none else some (.array items)

section

variable {f : Fields} {slots : List Slot} {name : String}

theorem Json.Fields.Holds.option {α : Type} (hf : f.Holds slots)
    {encode : α → Value} {a? : Option α} (hslot : (name, a?.map encode) ∈ slots)
    (hne : ∀ a, encode a ≠ .null) {content : Decode α}
    (hcontent : ∀ a ∈ a?, content.Reads (encode a) a) :
    (f.read name (some none) (Decode.option content)).Reads a?
      (∀ v ∈ a?.map encode, v.nesting ≤ f.room) := by
  refine hf.read hslot ?_ ?_
  · intro v hv
    obtain ⟨a, ha, rfl⟩ := Option.map_eq_some_iff.mp hv
    subst ha
    exact Decode.reads_some (hne a) (hcontent a rfl) f.room
  · intro hnone
    rw [Option.map_eq_none_iff.mp hnone]

theorem Json.Fields.Holds.text (hf : f.Holds slots) {s? : Option String}
    (hslot : (name, s?.map .str) ∈ slots) :
    (f.read name (some none) (Decode.option Decode.string)).Reads s?
      (∀ v ∈ s?.map Value.str, v.nesting ≤ f.room) :=
  hf.option hslot (by simp) fun s _ => Decode.reads_string s

theorem Json.Fields.Holds.list {α : Type} (hf : f.Holds slots) {encode : α → Value}
    {as : List α} (hslot : (name, listSlot (as.map encode)) ∈ slots) {item : Decode α}
    (hitem : ∀ a ∈ as, item.Reads (encode a) a) :
    (f.read name (some []) (Decode.list item)).Reads as
      (∀ v ∈ listSlot (as.map encode), v.nesting ≤ f.room) := by
  refine hf.read hslot ?_ ?_
  · intro v hv
    obtain ⟨-, rfl⟩ : _ ∧ Value.array (as.map encode) = v := by
      simpa [listSlot] using hv
    exact Decode.reads_list hitem f.room
  · intro hnone
    have hempty : as = [] := by simpa [listSlot] using hnone
    rw [hempty]

end

/-! ## §3  Instructions -/

section

variable (source : Source)

theorem FieldRef.reads (r : FieldRef) : (decode source).Reads r.toJson r := by
  refine Decode.reads_structure [("declaring_type", some r.declaringType.toJson),
    ("name", some (.str r.name)),
    ("field_type", some r.fieldType.toJson)] rfl (by decide) fun f hf => ?_
  refine Gather.Reads.congr
    ((((hf.given (by simp) (TypeSig.reads source _ _)).map FieldRef.mk).seq
    (hf.given (by simp) (Decode.reads_string _ _))).seq
    (hf.given (by simp) (TypeSig.reads source _ _))) ?_
  simp only [slotsFit_cons, slotsFit_nil, Option.mem_def, Option.some.injEq,
    forall_eq', and_true, and_assoc]

theorem MethodRef.reads (m : MethodRef) : (decode source).Reads m.toJson m := by
  let slots : List Slot :=
    [("scope", m.scope?.map .str), ("declaring_type", some m.declaringType.toJson),
      ("name", some (.str m.name)), ("has_this", some (.bool m.hasThis)),
      ("params", some (.array (m.params.map TypeSig.toJson))),
      ("return_type", some m.returnType.toJson),
      ("generic_args", listSlot (m.genericArgs.map TypeSig.toJson))]
  have hjson : m.toJson = .record (present slots) := by
    rw [toJson, TypeSig.listToJson_eq_map, TypeSig.listToJson_eq_map]
    obtain ⟨_ | scope, _, _, _, _, _, _ | ⟨t, ts⟩⟩ := m <;> rfl
  rw [hjson]
  refine Decode.reads_structure slots rfl (by decide) fun f hf => ?_
  have hparams :=
    Decode.reads_list (fun t (_ : t ∈ m.params) => TypeSig.reads source t) f.room
  refine Gather.Reads.congr ((((((((hf.text (by simp [slots])).map MethodRef.mk).seq
    (hf.given (by simp [slots]) (TypeSig.reads source _ _))).seq
    (hf.given (by simp [slots]) (Decode.reads_string _ _))).seq
    (hf.given (by simp [slots]) (Decode.reads_bool _ _))).seq
    (hf.given (by simp [slots]) hparams)).seq
    (hf.given (by simp [slots]) (TypeSig.reads source _ _))).seq
    (hf.list (by simp [slots]) fun t _ => TypeSig.reads source t)) ?_
  simp only [slots, slotsFit_cons, slotsFit_nil, Option.mem_def, Option.some.injEq,
    forall_eq', and_true, and_assoc]

theorem Opcode.ofKey?_key (op : Opcode) : ofKey? op.key = some op := by
  cases op <;> rfl

variable {ρ : Type} {target : ρ → Value} {decodeTarget : Decode ρ}

theorem Operand.reads {o : Operand ρ}
    (htargets : ∀ t ∈ o.targets, decodeTarget.Reads (target t) t) :
    (decode source decodeTarget).Reads (o.toJson target) o := by
  cases o with
  | none =>
    refine Decode.reads_of_leaf rfl fun room => ?_
    cases room <;> rfl
  | int32 v =>
      exact Decode.reads_tagged rfl fun room => (Decode.reads_int32 v room).map _
  | int64 v =>
      exact Decode.reads_tagged rfl fun room => (Decode.reads_int64 v room).map _
  | float64 x =>
      exact Decode.reads_tagged rfl fun room => (Decode.reads_float64 x room).map _
  | string s =>
      exact Decode.reads_tagged rfl fun room => (Decode.reads_string s room).map _
  | arg i =>
      exact Decode.reads_tagged rfl fun room => (Decode.reads_uint16 i room).map _
  | «local» i =>
      exact Decode.reads_tagged rfl fun room => (Decode.reads_uint16 i room).map _
  | type t =>
      exact Decode.reads_tagged rfl fun room => (TypeSig.reads source t room).map _
  | field r =>
      exact Decode.reads_tagged rfl fun room => (FieldRef.reads source r room).map _
  | method m =>
      exact Decode.reads_tagged rfl fun room => (MethodRef.reads source m room).map _
  | target t =>
      exact Decode.reads_tagged rfl fun room =>
        (htargets t (List.mem_singleton_self t) room).map _
  | switch ts =>
      exact Decode.reads_tagged rfl fun room =>
        (Decode.reads_list htargets room).map _

theorem Instruction.reads {i : Instruction ρ}
    (htargets : ∀ t ∈ i.targets, decodeTarget.Reads (target t) t) :
    (decode source decodeTarget).Reads (i.toJson target) i := by
  let slots : List Slot :=
    [("op", some (.str i.op.key)),
     ("operand",
       if i.operand.shape = .none then none else some (i.operand.toJson target))]
  have hjson : i.toJson target = .record (present slots) := by
    obtain ⟨op, operand⟩ := i
    cases operand <;> rfl
  rw [hjson]
  refine Decode.reads_structure slots rfl (by decide) fun f hf => ?_
  have hoperand :
      (f.read "operand" (some .none) (Operand.decode source decodeTarget)).Reads
        i.operand
        (∀ v ∈ if i.operand.shape = .none then none
          else some (i.operand.toJson target), v.nesting ≤ f.room) := by
    refine hf.read (by simp [slots]) ?_ ?_
    · intro v hv
      obtain ⟨-, rfl⟩ : _ ∧ i.operand.toJson target = v := by simpa using hv
      exact Operand.reads source htargets f.room
    · intro hnone
      obtain ⟨op, operand⟩ := i
      cases operand <;> first | rfl | exact absurd hnone (by simp [Operand.shape])
  refine Gather.Reads.congr
    (((hf.given (by simp [slots]) (Decode.reads_name i.op.ofKey?_key _)).map
    Instruction.mk).seq hoperand) ?_
  simp [SlotsFit, slots]

end

/-! ## §4  Bodies -/

section

variable (source : Source)

theorem reads_position {p : Nat} (hp : p < UInt32.size) :
    decodePosition.Reads (.nat p) p :=
  Decode.reads_nat (Nat.le_sub_one_of_lt hp)

theorem reads_position? {p? : Option Nat} (hp : ∀ p ∈ p?, p < UInt32.size) :
    (Decode.option decodePosition).Reads (optionToJson .nat p?) p? := by
  cases p? with
  | none => exact Decode.reads_none _
  | some p =>
      exact Decode.reads_some (by simp [optionToJson]) (reads_position (hp p rfl))

theorem HandlerKind.decode_filter {ρ : Type} (reference : Decode ρ) (room : Nat)
    (ms : List (String × Value)) :
    decode source reference (room + 1) (.tagged "filter" (.record ms)) =
      Decode.structure ["filter_start"]
        (fun f => HandlerKind.filter <$> f.required "filter_start" reference) room
        (.record ms) :=
  Decode.variantFields_record source _ _ _ ms

theorem HandlerKind.reads {k : HandlerKind Nat}
    (hstart : ∀ p ∈ k.filterStart?, p < UInt32.size) :
    (decode source decodePosition).Reads (k.toJson .nat) k := by
  cases k with
  | catches t =>
      exact Decode.reads_tagged rfl fun room => (TypeSig.reads source t room).map _
  | filter p =>
    have hfields :
        (Decode.structure ["filter_start"] fun f =>
          HandlerKind.filter <$> f.required "filter_start" decodePosition).Reads
          (.record [("filter_start", .nat p)]) (.filter p) := by
      refine Decode.reads_structure [("filter_start", some (.nat p))] rfl (by decide)
        fun f hf => ?_
      exact ((hf.given (by simp) (reads_position (hstart p rfl) _)).map
        HandlerKind.filter).congr (by simp [SlotsFit])
    refine Decode.reads_tagged rfl fun room => ?_
    rw [decode_filter]
    exact hfields room
  | finallyBlock =>
    refine Decode.reads_of_leaf rfl fun room => ?_
    cases room <;> rfl
  | faultBlock =>
    refine Decode.reads_of_leaf rfl fun room => ?_
    cases room <;> rfl

theorem ExceptionHandler.reads {x : ExceptionHandler Nat}
    (hmarks : ∀ p ∈ x.marks, p < UInt32.size) :
    (decode source decodePosition).Reads (x.toJson .nat) x := by
  simp only [marks, List.mem_append, Option.mem_toList] at hmarks
  refine Decode.reads_structure [("kind", some (x.kind.toJson .nat)),
    ("try_start", some (.nat x.tryStart)),
    ("try_end", some (optionToJson .nat x.tryEnd?)),
    ("handler_start", some (.nat x.handlerStart)),
    ("handler_end", some (optionToJson .nat x.handlerEnd?))] rfl (by decide)
    fun f hf => ?_
  refine Gather.Reads.congr
    ((((((hf.given (by simp) (HandlerKind.reads source ?_ _)).map
      ExceptionHandler.mk).seq
    (hf.given (by simp) (reads_position ?_ _))).seq
    (hf.given (by simp) (reads_position? ?_ _))).seq
    (hf.given (by simp) (reads_position ?_ _))).seq
    (hf.given (by simp) (reads_position? ?_ _))) ?_
  · exact fun p hp => hmarks p (by simp [Option.mem_def.mp hp])
  · exact hmarks _ (by simp)
  · exact fun p hp => hmarks p (by simp [Option.mem_def.mp hp])
  · exact hmarks _ (by simp)
  · exact fun p hp => hmarks p (by simp [Option.mem_def.mp hp])
  · simp only [slotsFit_cons, slotsFit_nil, Option.mem_def, Option.some.injEq,
      forall_eq', and_true, and_assoc]

theorem StoredBody.reads_fields {s : StoredBody}
    (hreferences : ∀ p ∈ s.references, p < UInt32.size) :
    (decodeFields source).Reads s.toJson s := by
  have htargets : ∀ i ∈ s.instructions, ∀ p ∈ i.targets, p < UInt32.size :=
    fun i hi p hp =>
      hreferences p (List.mem_append_left _ (List.mem_flatMap_of_mem hi hp))
  have hmarks : ∀ x ∈ s.handlers, ∀ p ∈ x.marks, p < UInt32.size := fun x hx p hp =>
    hreferences p (List.mem_append_right _ (List.mem_flatMap_of_mem hx hp))
  let slots : List Slot :=
    [("max_stack", some (.nat s.maxStack.toNat)),
     ("init_locals", some (.bool s.initLocals)),
     ("locals", listSlot (s.locals.toList.map TypeSig.toJson)),
     ("instructions", some (.array (s.instructions.map (Instruction.toJson .nat)))),
     ("handlers", listSlot (s.handlers.map (ExceptionHandler.toJson .nat)))]
  have hjson : s.toJson = .record (present slots) := by
    rw [toJson, TypeSig.listToJson_eq_map]
    obtain ⟨_, _, ⟨_ | ⟨t, ts⟩⟩, _, _ | ⟨x, xs⟩⟩ := s <;> rfl
  rw [hjson]
  refine Decode.reads_structure slots rfl (by decide) fun f hf => ?_
  have hlocals :
      (f.read "locals" (some #[]) (fun room v =>
        (Decode.list (TypeSig.decode source) room v).map List.toArray)).Reads s.locals
        (∀ v ∈ listSlot (s.locals.toList.map TypeSig.toJson), v.nesting ≤ f.room) := by
    refine hf.read (by simp [slots]) ?_ ?_
    · intro v hv
      obtain ⟨-, rfl⟩ : _ ∧ Value.array (s.locals.toList.map TypeSig.toJson) = v := by
        simpa [listSlot] using hv
      exact (Decode.reads_list (fun t _ => TypeSig.reads source t) f.room).map
        List.toArray
    · intro hnone
      have hempty : s.locals = #[] := by simpa [listSlot] using hnone
      rw [hempty]
  have hinstructions := Decode.reads_list
    (fun i (hi : i ∈ s.instructions) => Instruction.reads source fun p hp =>
      reads_position (htargets i hi p hp)) f.room
  refine Gather.Reads.congr
    ((((((hf.given (by simp [slots]) (Decode.reads_uint16 _ _)).map StoredBody.mk).seq
    (hf.given (by simp [slots]) (Decode.reads_bool _ _))).seq hlocals).seq
    (hf.given (by simp [slots]) hinstructions)).seq
    (hf.list (by simp [slots]) fun x hx =>
      ExceptionHandler.reads source (hmarks x hx))) ?_
  simp only [slots, slotsFit_cons, slotsFit_nil, Option.mem_def, Option.some.injEq,
    forall_eq', and_true, and_assoc]

/-- A body that can be loaded is read from what is written of it. -/
theorem StoredBody.reads {s : StoredBody} (hfault : s.fault? = none) :
    (decode source).Reads s.toJson s := by
  have hreferences : ∀ p ∈ s.references, p < UInt32.size := by
    obtain ⟨hcapacity, hreferences⟩ := fault?_eq_none_iff.mp hfault
    exact fun p hp => Nat.lt_of_lt_of_le (hreferences p hp) hcapacity
  intro room
  unfold decode
  refine ((reads_fields source hreferences room).bind (?_ : Answers _ s True)).congr
    (by simp)
  rw [hfault]
  exact ⟨fun _ => rfl, by simp⟩

end

/-! ## §5  Modules -/

def TypeDef.bodies {β : Type} (t : TypeDef β) : List β :=
  t.methods.filterMap (·.body?)

def Module.bodies {β : Type} (m : Module β) : List β := m.types.flatMap (·.bodies)

theorem TypeDef.mem_bodies {β : Type} {t : TypeDef β} {b : β} :
    b ∈ t.bodies ↔ ∃ d ∈ t.methods, d.body? = some b :=
  List.mem_filterMap

section

variable (source : Source)

theorem Visibility.ofKey?_key (v : Visibility) : ofKey? v.key = some v := by
  cases v <;> rfl

theorem ModuleReference.reads (r : ModuleReference) : decode.Reads r.toJson r := by
  let slots : List Slot :=
    [("name", some (.str r.name)), ("version", r.version?.map .str)]
  have hjson : r.toJson = .record (present slots) := by
    obtain ⟨_, _ | version⟩ := r <;> rfl
  rw [hjson]
  refine Decode.reads_structure slots rfl (by decide) fun f hf => ?_
  refine Gather.Reads.congr
    (((hf.given (by simp [slots]) (Decode.reads_string _ _)).map
      ModuleReference.mk).seq (hf.text (by simp [slots]))) ?_
  simp [SlotsFit, slots]

theorem FieldDef.reads (d : FieldDef) : (decode source).Reads d.toJson d := by
  refine Decode.reads_structure [("name", some (.str d.name)),
    ("field_type", some d.fieldType.toJson),
    ("visibility", some (.str d.visibility.key)),
    ("is_static", some (.bool d.isStatic)),
    ("is_init_only", some (.bool d.isInitOnly))] rfl (by decide) fun f hf => ?_
  refine Gather.Reads.congr
    ((((((hf.given (by simp) (Decode.reads_string _ _)).map FieldDef.mk).seq
    (hf.given (by simp) (TypeSig.reads source _ _))).seq
    (hf.given (by simp) (Decode.reads_name d.visibility.ofKey?_key _))).seq
    (hf.given (by simp) (Decode.reads_bool _ _))).seq
    (hf.given (by simp) (Decode.reads_bool _ _))) ?_
  simp only [slotsFit_cons, slotsFit_nil, Option.mem_def, Option.some.injEq,
    forall_eq', and_true, and_assoc]

theorem ParamDef.reads (p : ParamDef) : (decode source).Reads p.toJson p := by
  refine Decode.reads_structure [("name", some (.str p.name)),
    ("param_type", some p.paramType.toJson)] rfl (by decide) fun f hf => ?_
  refine Gather.Reads.congr
    (((hf.given (by simp) (Decode.reads_string _ _)).map ParamDef.mk).seq
    (hf.given (by simp) (TypeSig.reads source _ _))) ?_
  simp [SlotsFit]

theorem MethodDef.reads {m : MethodDef StoredBody}
    (hbody : ∀ s ∈ m.body?, s.fault? = none) :
    (decode source).Reads m.toJson m := by
  let slots : List Slot :=
    [("name", some (.str m.name)), ("visibility", some (.str m.visibility.key)),
     ("is_static", some (.bool m.isStatic)),
     ("generic_params", listSlot (m.genericParams.map .str)),
     ("params", some (.array (m.params.map ParamDef.toJson))),
     ("return_type", some m.returnType.toJson),
     ("body", m.body?.map StoredBody.toJson)]
  have hjson : m.toJson = .record (present slots) := by
    obtain ⟨_, _, _, _ | ⟨g, gs⟩, _, _, _ | s⟩ := m <;> rfl
  rw [hjson]
  refine Decode.reads_structure slots rfl (by decide) fun f hf => ?_
  have hparams :=
    Decode.reads_list (fun p (_ : p ∈ m.params) => ParamDef.reads source p) f.room
  have hbody :
      (f.read "body" (some none) (Decode.option (StoredBody.decode source))).Reads
        m.body? (∀ v ∈ m.body?.map StoredBody.toJson, v.nesting ≤ f.room) :=
    hf.option (by simp [slots]) (fun s => by simp [StoredBody.toJson, Value.record])
      fun s hs => StoredBody.reads source (hbody s hs)
  refine Gather.Reads.congr
    ((((((((hf.given (by simp [slots]) (Decode.reads_string _ _)).map MethodDef.mk).seq
      (hf.given (by simp [slots]) (Decode.reads_name m.visibility.ofKey?_key _))).seq
      (hf.given (by simp [slots]) (Decode.reads_bool _ _))).seq
      (hf.list (by simp [slots]) fun g _ => Decode.reads_string g)).seq
      (hf.given (by simp [slots]) hparams)).seq
      (hf.given (by simp [slots]) (TypeSig.reads source _ _))).seq hbody) ?_
  simp only [slots, slotsFit_cons, slotsFit_nil, Option.mem_def, Option.some.injEq,
    forall_eq', and_true, and_assoc]

theorem TypeDef.reads {t : TypeDef StoredBody}
    (hbodies : ∀ s ∈ t.bodies, s.fault? = none) :
    (decode source).Reads t.toJson t := by
  let slots : List Slot :=
    [("namespace", some (.str t.space)), ("name", some (.str t.name)),
     ("is_value_type", some (.bool t.isValueType)),
     ("generic_params", listSlot (t.genericParams.map .str)),
     ("fields", some (.array (t.fields.map FieldDef.toJson))),
     ("methods", some (.array (t.methods.map MethodDef.toJson)))]
  have hjson : t.toJson = .record (present slots) := by
    obtain ⟨_, _, _, _ | ⟨g, gs⟩, _, _⟩ := t <;> rfl
  rw [hjson]
  refine Decode.reads_structure slots rfl (by decide) fun f hf => ?_
  have hfields :=
    Decode.reads_list (fun d (_ : d ∈ t.fields) => FieldDef.reads source d) f.room
  have hmethods := Decode.reads_list (fun m hm => MethodDef.reads source fun s hs =>
    hbodies s (mem_bodies.mpr ⟨m, hm, hs⟩)) f.room
  refine Gather.Reads.congr
    (((((((hf.given (by simp [slots]) (Decode.reads_string _ _)).map TypeDef.mk).seq
    (hf.given (by simp [slots]) (Decode.reads_string _ _))).seq
    (hf.given (by simp [slots]) (Decode.reads_bool _ _))).seq
    (hf.list (by simp [slots]) fun g _ => Decode.reads_string g)).seq
    (hf.given (by simp [slots]) hfields)).seq
    (hf.given (by simp [slots]) hmethods)) ?_
  simp only [slots, slotsFit_cons, slotsFit_nil, Option.mem_def, Option.some.injEq,
    forall_eq', and_true, and_assoc]

/-- A module whose bodies can be loaded is read from what is written of it. -/
theorem Module.reads {m : Module StoredBody}
    (hbodies : ∀ s ∈ m.bodies, s.fault? = none) :
    (decode source).Reads m.toJson m := by
  let slots : List Slot :=
    [("name", some (.str m.name)), ("core_library", m.coreLibrary?.map .str),
     ("references", some (.array (m.references.map ModuleReference.toJson))),
     ("types", some (.array (m.types.map TypeDef.toJson)))]
  have hjson : m.toJson = .record (present slots) := by
    obtain ⟨_, _ | core, _, _⟩ := m <;> rfl
  rw [hjson]
  refine Decode.reads_structure slots rfl (by decide) fun f hf => ?_
  have hreferences :=
    Decode.reads_list (fun r (_ : r ∈ m.references) => r.reads) f.room
  have htypes := Decode.reads_list (fun t ht => TypeDef.reads source fun s hs =>
    hbodies s (List.mem_flatMap_of_mem ht hs)) f.room
  refine Gather.Reads.congr
    (((((hf.given (by simp [slots]) (Decode.reads_string _ _)).map Module.mk).seq
    (hf.text (by simp [slots]))).seq (hf.given (by simp [slots]) hreferences)).seq
    (hf.given (by simp [slots]) htypes)) ?_
  simp only [slots, slotsFit_cons, slotsFit_nil, Option.mem_def, Option.some.injEq,
    forall_eq', and_true, and_assoc]

end

/-! ## §6  What is read can be loaded -/

section

variable {source : Source}

theorem StoredBody.fault?_of_yields {s : StoredBody} (h : (decode source).Yields s) :
    s.fault? = none := by
  obtain ⟨room, v, hok⟩ := h
  obtain ⟨s', -, hrest⟩ := Except.bind_eq_ok hok
  cases hfault : s'.fault? with
  | some e => simp [hfault] at hrest
  | none =>
    rw [hfault] at hrest
    obtain rfl : s' = s := Except.ok.inj hrest
    exact hfault

theorem MethodDef.fault?_of_yields {m : MethodDef StoredBody}
    (h : (decode source).Yields m) : ∀ s ∈ m.body?, s.fault? = none := by
  refine h.of_structure (P := fun m => ∀ s ∈ m.body?, s.fault? = none) fun f =>
    Gather.Always.seq (Q := fun body? => ∀ s ∈ body?, s.fault? = none)
      (.any (.any (.any (.any (.any
        (Gather.always_map fun _ _ _ _ _ _ _ hbody => hbody)))))) ?_
  refine Fields.always_read (by simp) ?_
  rintro _ hbody s rfl
  exact StoredBody.fault?_of_yields hbody.of_option

theorem TypeDef.fault?_of_yields {t : TypeDef StoredBody}
    (h : (decode source).Yields t) : ∀ s ∈ t.bodies, s.fault? = none := by
  refine h.of_structure (P := fun t => ∀ s ∈ t.bodies, s.fault? = none) fun f =>
    Gather.Always.seq
      (Q := fun methods => ∀ m ∈ methods, ∀ s ∈ m.body?, s.fault? = none)
      (.any (.any (.any (.any (Gather.always_map ?_))))) ?_
  · intro _ _ _ _ _ methods hmethods s hs
    obtain ⟨m, hm, hs⟩ := mem_bodies.mp hs
    exact hmethods m hm s hs
  · refine Fields.always_read (by simp) ?_
    exact fun methods hmethods m hm =>
      MethodDef.fault?_of_yields (hmethods.of_list m hm)

/-- Each body of a module that has been read can be loaded. -/
theorem Module.fault?_of_yields {m : Module StoredBody}
    (h : (decode source).Yields m) : ∀ s ∈ m.bodies, s.fault? = none := by
  refine h.of_structure (P := fun m => ∀ s ∈ m.bodies, s.fault? = none) fun f =>
    Gather.Always.seq (Q := fun types => ∀ t ∈ types, ∀ s ∈ t.bodies, s.fault? = none)
      (.any (.any (Gather.always_map ?_))) ?_
  · intro _ _ _ types htypes s hs
    obtain ⟨t, ht, hs⟩ := List.mem_flatMap.mp hs
    exact htypes t ht s hs
  · refine Fields.always_read (by simp) ?_
    exact fun types htypes t ht => TypeDef.fault?_of_yields (htypes.of_list t ht)

end

end Instrumentation
