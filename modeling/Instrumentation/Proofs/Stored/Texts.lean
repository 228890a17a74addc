import Instrumentation.Proofs.Json.ReadBack
import Instrumentation.Proofs.Stored.Loading

/-!
# Texts of modules

The text of a module says all that there is to say of it, so that reading it
gives the module back if arrays and objects nest no deeper in it than a reader
goes, and nothing if they do. Reals are read back where their own texts are.

Sections: §1 what a text can say · §2 texts · §3 saving and loading.
-/

namespace Instrumentation

open Json

/-! ## §1  What a text can say -/

@[simp] theorem readsBack_listMember {key : String} {items : List Value} :
    (∀ (k : String) (v : Value), (k, v) ∈ listMember key items → v.ReadsBack) ↔
      ∀ v ∈ items, v.ReadsBack := by
  cases items <;> simp [listMember]

theorem readsBack_textMember (key : String) (s? : Option String) :
    ∀ (k : String) (v : Value), (k, v) ∈ textMember key s? → v.ReadsBack := by
  cases s? <;> simp [textMember]

@[simp] theorem TypeName.readsBack (n : TypeName) : n.toJson.ReadsBack := by
  simp [toJson]

namespace TypeSig

mutual

@[simp] theorem readsBack : ∀ t : TypeSig, t.toJson.ReadsBack
  | .primitive _ => trivial
  | .reference n | .value n => by simp [toJson]
  | .array e | .byRef e => by simp [toJson, readsBack e]
  | .typeParam _ | .methodParam _ => by simp [toJson]
  | .generic d _ args => by
    have hargs := readsBack_each args
    simpa [toJson, listToJson_eq_map] using hargs

theorem readsBack_each : ∀ ts : List TypeSig, ∀ t ∈ ts, t.toJson.ReadsBack
  | [] => by simp
  | t :: ts => List.forall_mem_cons.mpr ⟨readsBack t, readsBack_each ts⟩

end

end TypeSig

@[simp] theorem FieldRef.readsBack (r : FieldRef) : r.toJson.ReadsBack := by
  simp [toJson]

@[simp] theorem MethodRef.readsBack (m : MethodRef) : m.toJson.ReadsBack := by
  simpa [toJson, TypeSig.listToJson_eq_map, or_imp, forall_and]
    using readsBack_textMember "scope" m.scope?

def Operand.reals {ρ : Type} : Operand ρ → List Binary64
  | .float64 x => [x]
  | _ => []

section

variable {ρ : Type} {target : ρ → Value}

theorem Operand.readsBack {o : Operand ρ}
    (htargets : ∀ t ∈ o.targets, (target t).ReadsBack)
    (hreals : ∀ x ∈ o.reals, RealReadsBack x) : (o.toJson target).ReadsBack := by
  cases o with
  | float64 x =>
    rw [toJson, Value.readsBack_tagged]
    exact Number.readsBack_real (hreals x (List.mem_singleton_self x))
  | target t =>
    rw [toJson, Value.readsBack_tagged]
    exact htargets t (List.mem_singleton_self t)
  | switch ts =>
    rw [toJson, Value.readsBack_tagged, Value.readsBack_array, List.forall_mem_map]
    exact htargets
  | _ => simp [toJson]

theorem Instruction.readsBack {i : Instruction ρ}
    (htargets : ∀ t ∈ i.targets, (target t).ReadsBack)
    (hreals : ∀ x ∈ i.operand.reals, RealReadsBack x) :
    (i.toJson target).ReadsBack := by
  have hoperand := Operand.readsBack htargets hreals
  unfold toJson
  split <;> simp [hoperand]

theorem ExceptionHandler.readsBack {x : ExceptionHandler ρ}
    (hmarks : ∀ r ∈ x.marks, (target r).ReadsBack) :
    (x.toJson target).ReadsBack := by
  obtain ⟨kind, tryStart, tryEnd?, handlerStart, handlerEnd?⟩ := x
  simp only [marks, List.forall_mem_append,
    List.forall_mem_cons, Option.mem_toList] at hmarks
  obtain ⟨⟨⟨⟨hstart, hhandler, -⟩, hend⟩, hhandlerEnd⟩, hfilter⟩ := hmarks
  have hoption : ∀ r? : Option ρ, (∀ r ∈ r?, (target r).ReadsBack) →
      (optionToJson target r?).ReadsBack := by
    intro r? hr
    cases r? with
    | none => exact trivial
    | some r => exact hr r rfl
  have hkind : (kind.toJson target).ReadsBack := by
    cases kind with
    | filter r => simpa [HandlerKind.toJson] using hfilter r rfl
    | _ => simp [HandlerKind.toJson]
  simp [toJson, hkind, hstart, hhandler, hoption _ hend, hoption _ hhandlerEnd]

end

def StoredBody.reals (s : StoredBody) : List Binary64 :=
  s.instructions.flatMap (·.operand.reals)

theorem StoredBody.readsBack {s : StoredBody} (hfault : s.fault? = none)
    (hreals : ∀ x ∈ s.reals, RealReadsBack x) : s.toJson.ReadsBack := by
  obtain ⟨hcapacity, hreferences⟩ := fault?_eq_none_iff.mp hfault
  have hposition : ∀ p ∈ s.references, (Value.nat p).ReadsBack := fun p hp =>
    Value.readsBack_nat ((hreferences p hp).trans_le (hcapacity.trans (by decide)))
  have hinstructions : ∀ i ∈ s.instructions, (i.toJson .nat).ReadsBack := fun i hi =>
    Instruction.readsBack (fun p hp => hposition p
      (List.mem_append_left _ (List.mem_flatMap_of_mem hi hp)))
      fun x hx => hreals x (List.mem_flatMap_of_mem hi hx)
  have hhandlers : ∀ x ∈ s.handlers, (x.toJson .nat).ReadsBack := fun x hx =>
    ExceptionHandler.readsBack fun p hp =>
      hposition p (List.mem_append_right _ (List.mem_flatMap_of_mem hx hp))
  simpa [toJson, TypeSig.listToJson_eq_map, or_imp, forall_and]
    using And.intro hinstructions hhandlers

@[simp]
theorem ModuleReference.readsBack (r : ModuleReference) : r.toJson.ReadsBack := by
  simpa [toJson] using readsBack_textMember "version" r.version?

@[simp] theorem FieldDef.readsBack (d : FieldDef) : d.toJson.ReadsBack := by
  simp [toJson]

@[simp] theorem ParamDef.readsBack (p : ParamDef) : p.toJson.ReadsBack := by
  simp [toJson]

theorem MethodDef.readsBack {m : MethodDef StoredBody}
    (hbody : ∀ s ∈ m.body?, s.toJson.ReadsBack) : m.toJson.ReadsBack := by
  simpa [toJson, or_imp, forall_and] using hbody

theorem TypeDef.readsBack {t : TypeDef StoredBody}
    (hmethods : ∀ m ∈ t.methods, m.toJson.ReadsBack) : t.toJson.ReadsBack := by
  simpa [toJson, or_imp, forall_and] using hmethods

def Module.reals (m : Module StoredBody) : List Binary64 := m.bodies.flatMap (·.reals)

theorem Module.readsBack {m : Module StoredBody}
    (hbodies : ∀ s ∈ m.bodies, s.fault? = none)
    (hreals : ∀ x ∈ m.reals, RealReadsBack x) : m.toJson.ReadsBack := by
  have hbody : ∀ s ∈ m.bodies, s.toJson.ReadsBack := fun s hs =>
    StoredBody.readsBack (hbodies s hs) fun x hx =>
      hreals x (List.mem_flatMap_of_mem hs hx)
  have htypes : ∀ t ∈ m.types, t.toJson.ReadsBack := fun t ht =>
    TypeDef.readsBack fun d hd => MethodDef.readsBack fun s hs =>
      hbody s (List.mem_flatMap_of_mem ht (TypeDef.mem_bodies.mpr ⟨d, hd, hs⟩))
  simpa [toJson, or_imp, forall_and]
    using And.intro (readsBack_textMember "core_library" m.coreLibrary?) htypes

/-! ## §2  Texts -/

/-- Each body of a module that has been read from a text can be loaded. -/
theorem Module.fault?_of_ofText {text : String} {m : Module StoredBody}
    (hread : ofText text = .ok m) : ∀ s ∈ m.bodies, s.fault? = none := by
  unfold ofText decodeText at hread
  simp only at hread
  split at hread
  · cases hread
  · rename_i m' hdecode
    split at hread
    · obtain rfl : m' = m := Except.ok.inj hread
      exact fault?_of_yields ⟨_, _, hdecode⟩
    · cases hread

theorem Module.ofText_toText {m : Module StoredBody}
    (hbodies : ∀ s ∈ m.bodies, s.fault? = none)
    (hreals : ∀ x ∈ m.reals, RealReadsBack x) :
    Answers (ofText m.toText) m (m.toJson.nesting ≤ maxNesting) := by
  have hdecode := Module.reads .text hbodies maxNesting
  have hread := read_write (Module.readsBack hbodies hreals)
  rw [ofText, toText, decodeText, hread]
  constructor
  · intro hfits
    simp [hdecode.1 hfits]
  · intro hdeep
    simp [hdecode.2 hdeep]

/-! ## §3  Saving and loading -/

/-- A module whose bodies can be stored and loaded again, and whose reals are
finite, comes back from its own text with nothing changed but the names of its
handles, if arrays and objects nest no deeper in it than a reader goes. If they
do, the text is malformed. The reader is only taken to read the reals of the
module back from what the writer makes of them. -/
theorem Module.saved_and_loaded (m : Module Body) (hm : ∀ b ∈ m.bodies, b.Sound)
    (hfinite : ∀ x ∈ m.toStored.reals, x.isFinite = true)
    (hreader : ∀ x ∈ m.toStored.reals, x.isFinite = true → RealReadsBack x) :
    (m.toStored.toJson.nesting ≤ maxNesting →
      ofText m.toStored.toText = .ok m.toStored ∧
      ∀ next, ∃ again next', ofStored next m.toStored = .ok (again, next') ∧
        m.Agree Body.Alike again) ∧
    (maxNesting < m.toStored.toJson.nesting →
      ofText m.toStored.toText = .error .malformed) := by
  have hfault : ∀ s ∈ m.toStored.bodies, s.fault? = none := by
    rw [toStored, bodies_map, List.forall_mem_map]
    exact fun b hb => (hm b hb).fault?_toStored
  obtain ⟨hfits, hdeep⟩ :=
    ofText_toText hfault fun x hx => hreader x hx (hfinite x hx)
  exact ⟨fun hle => ⟨hfits hle, exists_ofStored_toStored hm⟩,
    fun hlt => hdeep (Nat.not_le.mpr hlt)⟩

def oneAndAHalf : Binary64 := ⟨0x3ff8000000000000⟩

theorem realReadsBack_oneAndAHalf : RealReadsBack oneAndAHalf := by
  have hstored : Decimal.stored oneAndAHalf = "1.5" := by decide +kernel
  have hnumeral : Numeral.ofChars? "1.5".toList = some ⟨false, [1], [5], none⟩ := by
    decide +kernel
  have hnumber : Numeral.number? ⟨false, [1], [5], none⟩ =
    some (.real oneAndAHalf) := by decide +kernel
  rw [realReadsBack_iff, numeralToken, hstored, hnumeral, ← hnumber]

/-- A body with a filter and a jump table, whose real was put in when the rest
was there. -/
def filtering : Body :=
  { Body.ofInstructions ((InstructionList.ofList 1
      [⟨.ldarg, .arg 0⟩, ⟨.switch, .switch [⟨1, 2⟩, ⟨1, 0⟩]⟩,
        ⟨.ret, .none⟩, ⟨.endfinally, .none⟩, ⟨.pop, .none⟩]).insertAt 2
      [⟨.ldcR8, .float64 oneAndAHalf⟩]) with
    locals := #[.byRef (.methodParam 0)]
    handlers := [⟨.filter ⟨1, 3⟩, ⟨1, 0⟩, some ⟨1, 3⟩, ⟨1, 4⟩, none⟩] }

def filteringModule : Module Body :=
  { name := "App", coreLibrary? := some "System.Runtime",
    references := [⟨"Tables", none⟩, ⟨"Rows", some "1.0"⟩]
    types := [{
      space := "App", name := "Table`1", isValueType := true, genericParams := ["T"]
      fields := [
        ⟨"rows", .array (.generic ⟨"Rows", "Row`1"⟩ true [.typeParam 0]),
          .familyAndAssembly, false, true⟩]
      methods := [
        { name := "Find", visibility := .family, isStatic := true,
          genericParams := ["K"]
          params := [⟨"key", .methodParam 0⟩],
          returnType := .primitive .float64, body? := some filtering },
        { name := "Count", visibility := .assembly, isStatic := false,
          genericParams := [], params := []
          returnType := .primitive .int32, body? := none }] }] }

theorem filteringModule_saved_and_loaded :
    (∀ b ∈ filteringModule.bodies, b.Sound) ∧
    filteringModule.toStored.reals = [oneAndAHalf] ∧
    filtering.instructions.order = [0, 1, 5, 2, 3, 4] ∧
    Module.ofText filteringModule.toStored.toText = .ok filteringModule.toStored ∧
    ∃ again next, Module.ofStored 7 filteringModule.toStored = .ok (again, next) ∧
      filteringModule.Agree Body.Alike again := by
  have hlinked : filtering.IsLinked := Body.isLinked_iff_named.mpr (by decide)
  have hsound : ∀ b ∈ filteringModule.bodies, b.Sound := by
    intro b hb
    obtain rfl := List.mem_singleton.mp hb
    exact ⟨hlinked, by decide⟩
  have hreals : filteringModule.toStored.reals = [oneAndAHalf] := by decide +kernel
  have hreader :
      ∀ x ∈ filteringModule.toStored.reals, x.isFinite = true ∧ RealReadsBack x := by
    rw [hreals]
    intro x hx
    obtain rfl := List.mem_singleton.mp hx
    exact ⟨by decide, realReadsBack_oneAndAHalf⟩
  obtain ⟨hread, hload⟩ :=
    (Module.saved_and_loaded filteringModule hsound (fun x hx => (hreader x hx).1)
      fun x hx _ => (hreader x hx).2).1 (by decide +kernel)
  exact ⟨hsound, hreals, by decide, hread, hload 7⟩

end Instrumentation
