import Instrumentation.Body.Listing
import Instrumentation.Proofs.Flow.Refusals
import Instrumentation.Proofs.Stored.Renaming

/-!
# Renamed bodies

What is made out about a body are positions, depths, opcodes and texts, and no
handles. A body with other names for its instructions therefore gives the same
answers, refusals included: control enters it at the same positions and goes on
to the same positions in the same order, so the stack analysis makes the same
visits one by one and breaks off, if it does, at the same one.

This takes that the body names its own instructions only. A handle of another
list has no position, and shows in refusals and listings as itself.

Sections: §1 instructions under other names · §2 where instructions stand · §3
the stack analysis · §4 verification · §5 listings · §6 bodies that were loaded
again.
-/

namespace Instrumentation

open InstructionList

/-! ## §1  Instructions under other names -/

section

variable {ρ σ : Type}

@[simp] theorem Instruction.isWellFormed_map (f : ρ → σ) (i : Instruction ρ) :
    (i.map f).isWellFormed = i.isWellFormed := by
  simp [isWellFormed]

/-- What an instruction does to the stack is not for its targets to say. -/
@[simp]
theorem Instruction.effect_map (f : ρ → σ) (i : Instruction ρ)
    (returnsValue : Bool) (p : Nat) :
    (i.map f).effect returnsValue p = i.effect returnsValue p := by
  obtain ⟨op, operand⟩ := i
  cases op with
  | call | callvirt | newobj => cases operand <;> rfl
  | _ => rfl

theorem ExceptionHandler.map_congr_left {f g : ρ → σ} {x : ExceptionHandler ρ}
    (hsame : ∀ h ∈ x.marks, f h = g h) : x.map f = x.map g := by
  obtain ⟨kind, tryStart, tryEnd?, handlerStart, handlerEnd?⟩ := x
  cases kind <;> cases tryEnd? <;> cases handlerEnd? <;>
    simp_all [ExceptionHandler.map, HandlerKind.map, marks, HandlerKind.filterStart?]

theorem Instruction.map_congr_left {f g : ρ → σ} {i : Instruction ρ}
    (hsame : ∀ t ∈ i.targets, f t = g t) : i.map f = i.map g :=
  congrArg (Instruction.mk i.op) (Operand.map_congr_left hsame)

theorem Instruction.text_map (f : ρ → σ) (i : Instruction ρ) (target : σ → String) :
    (i.map f).text target = i.text (target ∘ f) := by
  obtain ⟨op, operand⟩ := i
  cases operand <;> simp [text, Instruction.map, Operand.map]

theorem Instruction.text_congr {i : Instruction ρ} {target target' : ρ → String}
    (hsame : ∀ t ∈ i.targets, target t = target' t) :
    i.text target = i.text target' := by
  obtain ⟨op, operand⟩ := i
  cases operand with
  | target t => simp [text, hsame t (List.mem_singleton_self t)]
  | switch ts =>
      have hsame : ts.map target = ts.map target' := List.map_congr_left hsame
      simp [text, hsame]
  | _ => rfl

/-- Checks in sequence agree if they agree one by one. -/
theorem forM_zipIdx_map {ε α β : Type} {g : α → β} {check : β × Nat → Except ε Unit}
    {check' : α × Nat → Except ε Unit} {xs : List α} {n : Nat}
    (hsame : ∀ x ∈ xs, ∀ n, check (g x, n) = check' (x, n)) :
    ((xs.map g).zipIdx n).forM check = (xs.zipIdx n).forM check' := by
  induction xs generalizing n with
  | nil => rfl
  | cons x xs ih =>
      obtain ⟨hfirst, hrest⟩ := List.forall_mem_cons.mp hsame
      have hrest := ih (n := n + 1) hrest
      simp only [List.forM_eq_forM] at hrest ⊢
      rw [List.map_cons, List.zipIdx_cons, List.zipIdx_cons, List.forM_cons,
        List.forM_cons, hfirst, hrest]

end

namespace Body

variable {f : Handle → Handle} {b c : Body} {h : Handle} {returnsValue : Bool}

/-! ## §2  Where instructions stand -/

namespace Renaming

section

variable (hf : Renaming f b c)

include hf

theorem handles : c.instructions.handles = b.instructions.handles.map f := by
  rw [← entries_map_fst, hf.entries, ← entries_map_fst]
  simp

theorem code : c.instructions.code = b.instructions.code.map (·.map f) := by
  rw [← entries_map_snd, hf.entries, ← entries_map_snd]
  simp

theorem size : c.instructions.size = b.instructions.size := by
  rw [← length_handles, hf.handles, List.length_map, length_handles]

theorem isEmpty : c.instructions.isEmpty = b.instructions.isEmpty := by
  simp only [InstructionList.isEmpty, hf.size]

theorem contains (hin : b.instructions.contains h = true) :
    c.instructions.contains (f h) = true := by
  rw [← mem_handles, hf.handles]
  exact List.mem_map_of_mem (mem_handles.mpr hin)

theorem get? {i : Instruction Handle} (hi : b.instructions.get? h = some i) :
    c.instructions.get? (f h) = some (i.map f) := by
  rw [← mem_entries, hf.entries]
  exact List.mem_map_of_mem (mem_entries.mpr hi)

theorem position? (hin : b.instructions.contains h = true) :
    c.instructions.position? (f h) = b.instructions.position? h := by
  obtain ⟨p, hp⟩ := exists_position? hin
  rw [hp, position?_eq_some_iff, hf.handles, List.getElem?_map,
    position?_eq_some_iff.mp hp]
  rfl

theorem place (hin : b.instructions.contains h = true) :
    c.place (f h) = b.place h := by
  obtain ⟨p, hp⟩ := exists_position? hin
  rw [Body.place, hf.position? hin, Body.place, hp]

end

theorem trans {g : Handle → Handle} {d : Body} (hf : Renaming f b c)
    (hg : Renaming g c d) : Renaming (g ∘ f) b d := by
  refine ⟨?_, ?_, ?_, hg.maxStack.trans hf.maxStack,
    hg.initLocals.trans hf.initLocals, hg.locals.trans hf.locals⟩
  · intro h k hh hk hsame
    exact hf.injective h k hh hk
      (hg.injective _ _ (hf.contains hh) (hf.contains hk) hsame)
  · rw [hg.entries, hf.entries, List.map_map]
    exact List.map_congr_left fun e _ => Prod.ext rfl (Instruction.map_map f g e.2)
  · rw [hg.handlers, hf.handlers, List.map_map]
    exact List.map_congr_left fun x _ => ExceptionHandler.map_map f g x

/-- A body is stored under other names as under its own. -/
theorem toStored (hf : Renaming f b c) (hb : b.IsLinked) :
    c.toStored = b.toStored := by
  have hposition : ∀ {h}, b.instructions.contains h = true →
      c.storedPosition (f h) = b.storedPosition h :=
    fun hin => by rw [storedPosition, hf.position? hin, storedPosition]
  have hinstructions : c.instructions.code.map (·.map c.storedPosition) =
      b.instructions.code.map (·.map b.storedPosition) := by
    rw [hf.code, List.map_map]
    refine List.map_congr_left fun i hi => ?_
    obtain ⟨h, hi⟩ := mem_code.mp hi
    exact (Instruction.map_map f _ i).trans
      (Instruction.map_congr_left fun t ht => hposition (hb.targets hi t ht))
  have hhandlers : c.handlers.map (·.map c.storedPosition) =
      b.handlers.map (·.map b.storedPosition) := by
    rw [hf.handlers, List.map_map]
    refine List.map_congr_left fun x hx => ?_
    exact (ExceptionHandler.map_map f _ x).trans
      (ExceptionHandler.map_congr_left fun h hh => hposition (hb.marks x hx h hh))
  calc c.toStored
      = { b.toStored with
          instructions := c.instructions.code.map (·.map c.storedPosition)
          handlers := c.handlers.map (·.map c.storedPosition) } := by
        simp only [Body.toStored, hf.maxStack, hf.initLocals, hf.locals]
        rfl
    _ = b.toStored := by
        rw [hinstructions, hhandlers]
        rfl

/-! ## §3  The stack analysis -/

theorem code_toArray_getD (hf : Renaming f b c) (p : Nat) :
    c.instructions.code.toArray[p]?.getD default =
      (b.instructions.code.toArray[p]?.getD default).map f := by
  rw [hf.code, List.getElem?_toArray, List.getElem?_toArray, List.getElem?_map]
  cases b.instructions.code[p]? <;> rfl

theorem edgeCount (hf : Renaming f b c) : c.edgeCount = b.edgeCount := by
  simp [Body.edgeCount, hf.code, hf.size, List.flatMap_map]

theorem successors (hf : Renaming f b c) (p after : Nat) {i : Instruction Handle}
    (hi : ∀ t ∈ i.targets, b.instructions.contains t = true) :
    c.successors p (i.map f) after = b.successors p i after := by
  have htargets :
      (i.targets.map f).map (fun t => (c.place t, i.op.targetDepth after)) =
      i.targets.map fun t => (b.place t, i.op.targetDepth after) := by
    rw [List.map_map]
    exact List.map_congr_left fun t ht => by simp [hf.place (hi t ht)]
  simp only [Body.successors, Instruction.op_map, Instruction.targets_map,
    htargets, hf.size]

section

variable (hf : Renaming f b c) (hb : b.IsLinked)

include hf hb

theorem starts : c.starts = b.starts := by
  unfold Body.starts
  rw [hf.isEmpty, hf.handlers, List.flatMap_map]
  refine congrArg _ (List.flatMap_congr fun x hx => ?_)
  have hmarks := hb.marks x hx
  have hstart := hf.place (hmarks x.handlerStart (by simp [ExceptionHandler.marks]))
  cases hkind : x.kind with
  | filter s =>
      have hfilter := hf.place
        (hmarks s (by simp [ExceptionHandler.marks, hkind, HandlerKind.filterStart?]))
      simp [ExceptionHandler.map, HandlerKind.map, hkind, HandlerKind.filterStart?,
        entryDepth, hstart, hfilter]
  | _ =>
      simp [ExceptionHandler.map, HandlerKind.map, hkind, HandlerKind.filterStart?,
        entryDepth, hstart]

/-- A visit finds the same instruction with the same successors, and goes on or
breaks off alike. -/
theorem visit :
    c.visit returnsValue c.instructions.code.toArray =
      b.visit returnsValue b.instructions.code.toArray := by
  funext place depth s
  cases place with
  | outside h => rfl
  | «at» p =>
      have hsuccessors := fun after => hf.successors p after (hb.contains_of_getD p)
      simp only [Body.visit, hf.code_toArray_getD p,
        Instruction.effect_map, hsuccessors]

theorem explore (fuel : Nat) (s : Exploration) :
    c.explore returnsValue c.instructions.code.toArray fuel s =
      b.explore returnsValue b.instructions.code.toArray fuel s := by
  induction fuel generalizing s with
  | zero => obtain ⟨_ | ⟨x, work⟩, depths, peak⟩ := s <;> rfl
  | succ fuel ih =>
      obtain ⟨_ | ⟨x, work⟩, depths, peak⟩ := s
      · rfl
      · simp only [Body.explore, hf.visit hb, ih]

theorem peakDepth (returnsValue : Bool) :
    c.peakDepth returnsValue = b.peakDepth returnsValue := by
  simp only [Body.peakDepth, hf.explore hb, hf.starts hb, hf.edgeCount, hf.size]

theorem requiredStack (returnsValue : Bool) :
    c.requiredStack returnsValue = b.requiredStack returnsValue := by
  simp only [Body.requiredStack, hf.peakDepth hb]

end

/-! ## §4  Verification -/

section

variable (hf : Renaming f b c) (hb : b.IsLinked)

include hf hb

theorem checkInstruction (p : Nat) {i : Instruction Handle}
    (hi : i ∈ b.instructions.code) :
    c.checkInstruction p (i.map f) = b.checkInstruction p i := by
  obtain ⟨h, hi⟩ := mem_code.mp hi
  have hnone : i.targets.find? (fun t => !b.instructions.contains t) = none := by
    simpa using hb.targets hi
  have hnone' :
      (i.map f).targets.find? (fun t => !c.instructions.contains t) = none := by
    simpa using fun t ht => hf.contains (hb.targets hi t ht)
  simp only [Body.checkInstruction, Instruction.isWellFormed_map, hnone,
    hnone', hf.locals]
  obtain ⟨op, operand⟩ := i
  cases operand <;> rfl

theorem checkHandler (index : Nat) {x : ExceptionHandler Handle}
    (hx : x ∈ b.handlers) :
    c.checkHandler index (x.map f) = b.checkHandler index x := by
  have hmarks : (x.map f).marks.all c.instructions.contains = true := by
    rw [List.all_eq_true, ExceptionHandler.marks_map, List.forall_mem_map]
    exact fun h hh => hf.contains (hb.marks x hx h hh)
  rw [Body.checkHandler, hmarks, Body.checkHandler,
    List.all_eq_true.mpr (hb.marks x hx)]

end

theorem last_entry (hf : Renaming f b c) :
    c.instructions.last?.bind c.instructions.get? =
      (b.instructions.last?.bind b.instructions.get?).map (·.map f) := by
  rw [last?_eq_getLast?, last?_eq_getLast?, hf.handles, List.getLast?_map]
  cases hlast : b.instructions.handles.getLast? with
  | none => rfl
  | some h =>
      obtain ⟨i, hi⟩ :=
        contains_iff_get?.mp (mem_handles.mp (List.mem_of_getLast? hlast))
      simp [hi, hf.get? hi]

/-- Verification accepts both bodies or refuses them for the same fault. -/
theorem verify (hf : Renaming f b c) (hb : b.IsLinked) (returnsValue : Bool) :
    c.verify returnsValue = b.verify returnsValue := by
  have hinstructions :
      (c.instructions.code.zipIdx.forM fun x => c.checkInstruction x.2 x.1) =
      b.instructions.code.zipIdx.forM fun x => b.checkInstruction x.2 x.1 := by
    rw [hf.code]
    exact forM_zipIdx_map fun i hi p => hf.checkInstruction hb p hi
  have hhandlers : (c.handlers.zipIdx.forM fun x => c.checkHandler x.2 x.1) =
      b.handlers.zipIdx.forM fun x => b.checkHandler x.2 x.1 := by
    rw [hf.handlers]
    exact forM_zipIdx_map fun x hx index => hf.checkHandler hb index hx
  have hstack : c.checkStack returnsValue = b.checkStack returnsValue := by
    simp only [checkStack, hf.requiredStack hb, hf.maxStack]
  have hend (last : Instruction Handle) :
      c.checkEnd (last.map f) = b.checkEnd last := by
    simp only [checkEnd, Instruction.op_map, hf.size]
  unfold Body.verify
  rw [hf.last_entry]
  cases b.instructions.last?.bind b.instructions.get? with
  | none => rfl
  | some last => simp only [Option.map_some, hinstructions, hhandlers, hend, hstack]

/-! ## §5  Listings -/

theorem returns (hf : Renaming f b c) : c.returns = b.returns.map f := by
  rw [Body.returns, hf.entries, List.filter_map, List.map_map,
    Body.returns, List.map_map]
  rfl

/-- Returns stand where they stood. -/
theorem map_position?_returns (hf : Renaming f b c) :
    c.returns.map c.instructions.position? =
      b.returns.map b.instructions.position? := by
  rw [hf.returns, List.map_map]
  refine List.map_congr_left fun h hh => hf.position? ?_
  obtain ⟨⟨h, i⟩, he, rfl⟩ := List.mem_map.mp hh
  exact contains_of_get? (mem_entries.mp (List.mem_of_mem_filter he))

section

variable (hf : Renaming f b c) (hb : b.IsLinked)

include hf

theorem reference (hin : b.instructions.contains h = true) :
    c.reference (f h) = b.reference h := by
  obtain ⟨p, hp⟩ := exists_position? hin
  rw [Body.reference, hf.position? hin, Body.reference, hp]

theorem endReference {h? : Option Handle}
    (hin : ∀ h ∈ h?, b.instructions.contains h = true) :
    c.endReference (h?.map f) = b.endReference h? := by
  cases h? with
  | none => rfl
  | some h => exact hf.reference (hin h rfl)

include hb

theorem handlerText {x : ExceptionHandler Handle} (hx : x ∈ b.handlers) :
    c.handlerText (x.map f) = b.handlerText x := by
  have hmarks := hb.marks x hx
  simp only [ExceptionHandler.marks, List.forall_mem_append,
    List.forall_mem_cons, Option.mem_toList] at hmarks
  obtain ⟨⟨⟨⟨hstart, hhandler, -⟩, hend⟩, hhandlerEnd⟩, hfilter⟩ := hmarks
  have hclause : c.clauseText (x.kind.map f) = b.clauseText x.kind := by
    cases hkind : x.kind with
    | filter s =>
        simp [HandlerKind.map, clauseText,
          hf.reference (hfilter s (by rw [hkind]; rfl))]
    | _ => rfl
  simp only [Body.handlerText, ExceptionHandler.map, hclause, hf.reference hstart,
    hf.reference hhandler, hf.endReference hend, hf.endReference hhandlerEnd]

theorem lines : c.lines = b.lines := by
  have htext :
      ∀ i ∈ b.instructions.code, (i.map f).text c.reference = i.text b.reference := by
    intro i hi
    obtain ⟨h, hi⟩ := mem_code.mp hi
    rw [Instruction.text_map]
    exact Instruction.text_congr fun t ht => hf.reference (hb.targets hi t ht)
  have hhandlers : c.handlers.map c.handlerText = b.handlers.map b.handlerText := by
    rw [hf.handlers, List.map_map]
    exact List.map_congr_left fun x hx => hf.handlerText hb hx
  unfold Body.lines
  rw [hf.maxStack, hf.locals, hf.code, List.zipIdx_map, List.map_map, hhandlers]
  congr 2
  refine List.map_congr_left ?_
  rintro ⟨i, p⟩ hi
  exact congrArg (label p ++ ": " ++ ·)
    (htext i (List.mem_of_getElem? (List.mk_mem_zipIdx_iff_getElem?.mp hi)))

theorem listing : c.listing = b.listing := by
  simp only [Body.listing, hf.lines hb]

end

end Renaming

/-! ## §6  Bodies that were loaded again -/

variable {identity : Nat}

/-- A body that names its own instructions only is loaded again if a list can
hold it. -/
theorem IsLinked.exists_ofStored_iff (hb : b.IsLinked) (identity : Nat) :
    (∃ c, ofStored identity b.toStored = .ok c) ↔ b.instructions.size ≤ capacity := by
  rw [Body.exists_ofStored_iff, StoredBody.fault?_eq_none_iff, length_toStored,
    references_toStored, List.forall_mem_map, and_iff_left_iff_imp]
  exact fun _ h hh => storedPosition_lt (isLinked_iff_named.mp hb h hh)

/-- A body that names its own instructions only can be stored and loaded again
if a list can hold it. What is made out about it is then the same before and
after: the stack it needs or why that cannot be told, whether it is accepted or
for what it is refused, where its returns stand, and its listing. -/
theorem loaded_answers_alike (b : Body) (hb : b.IsLinked) (returnsValue : Bool)
    (identity : Nat) :
    ((∃ c, ofStored identity b.toStored = .ok c) ↔ b.instructions.size ≤ capacity) ∧
    ∀ c, ofStored identity b.toStored = .ok c →
      c.requiredStack returnsValue = b.requiredStack returnsValue ∧
      c.verify returnsValue = b.verify returnsValue ∧
      c.returns.map c.instructions.position? =
        b.returns.map b.instructions.position? ∧
      c.listing = b.listing := by
  refine ⟨hb.exists_ofStored_iff identity, fun c hc => ?_⟩
  obtain ⟨f, hf⟩ := exists_renaming_of_ofStored hc
  exact ⟨hf.requiredStack hb returnsValue, hf.verify hb returnsValue,
    hf.map_position?_returns, hf.listing hb⟩

/-- A body that pushes a value on its way back to the start, by a jump that came
in later than what follows it. -/
def heaping : Body :=
  .ofInstructions ((ofList 1 [⟨.nop, .none⟩, ⟨.ret, .none⟩]).insertAt 1
    [⟨.ldnull, .none⟩, ⟨.brtrue, .target ⟨1, 1⟩⟩, ⟨.ldnull, .none⟩,
      ⟨.br, .target ⟨1, 0⟩⟩])

/-- The refusal is the same though the indices of the instructions have changed. -/
theorem loaded_answers_alike_heaping :
    heaping.IsLinked ∧
      ∃ c, ofStored 7 heaping.toStored = .ok c ∧
        heaping.instructions.order = [0, 2, 3, 4, 5, 1] ∧
        c.instructions.order = [0, 1, 2, 3, 4, 5] ∧
        c.verify false = .error (.inconsistentDepth 0 0 1) ∧
        c.returns.map c.instructions.position? = [some 5] ∧
        c.listing = heaping.listing := by
  have hb : heaping.IsLinked := isLinked_iff_named.mpr (by decide)
  obtain ⟨hloaded, halike⟩ := loaded_answers_alike heaping hb false 7
  obtain ⟨c, hc⟩ := hloaded.mpr (by decide)
  obtain ⟨-, hverify, hreturns, hlisting⟩ := halike c hc
  obtain ⟨-, rfl⟩ := ofStored_eq_ok_iff.mp hc
  refine ⟨hb, _, hc, by decide, by decide, hverify.trans ?_,
    hreturns.trans (by decide), hlisting⟩
  decide

end Body

end Instrumentation
