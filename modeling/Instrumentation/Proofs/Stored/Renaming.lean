import Instrumentation.Proofs.Flow.Run
import Instrumentation.Stored.Body

/-!
# Stored bodies and renamings

A body refers to its instructions by handles, a stored body by positions.
Storing and loading are inverse to each other, up to the names of the handles: a
body that was loaded is stored as what it was loaded from, and a body that is
stored and loaded again is the old one with its handles renamed, one to one and
in order.

What cannot be loaded are references that lead nowhere. In a stored body these
are the positions past its end; in a body they are the handles of other lists,
wherever their index may lie, since each of them is stored as a position past
the end.

Sections: §1 renaming references · §2 renamings of a body · §3 what a body names
· §4 loading · §5 storing and loading.
-/

namespace Instrumentation

open InstructionList

/-! ## §1  Renaming references -/

section

variable {ρ σ τ : Type}

theorem Operand.map_map (f : ρ → σ) (g : σ → τ) (o : Operand ρ) :
    (o.map f).map g = o.map (g ∘ f) := by
  cases o <;> simp [Operand.map]

theorem Operand.map_congr_left {f g : ρ → σ} {o : Operand ρ}
    (hsame : ∀ t ∈ o.targets, f t = g t) : o.map f = o.map g := by
  cases o with
  | target t => exact congrArg Operand.target (hsame t (List.mem_singleton_self t))
  | switch ts => exact congrArg Operand.switch (List.map_congr_left hsame)
  | _ => rfl

theorem Operand.map_id (o : Operand ρ) : o.map id = o := by
  cases o <;> simp [Operand.map]

theorem Instruction.map_map (f : ρ → σ) (g : σ → τ) (i : Instruction ρ) :
    (i.map f).map g = i.map (g ∘ f) :=
  congrArg (Instruction.mk i.op) (i.operand.map_map f g)

/-- Where a renaming does nothing to the targets it does nothing to the
instruction. -/
theorem Instruction.map_eq_self {f : ρ → ρ} {i : Instruction ρ}
    (hsame : ∀ t ∈ i.targets, f t = t) : i.map f = i :=
  congrArg (Instruction.mk i.op)
    ((Operand.map_congr_left hsame).trans i.operand.map_id)

theorem ExceptionHandler.map_map (f : ρ → σ) (g : σ → τ) (x : ExceptionHandler ρ) :
    (x.map f).map g = x.map (g ∘ f) := by
  obtain ⟨kind, tryStart, tryEnd?, handlerStart, handlerEnd?⟩ := x
  cases kind <;> simp [ExceptionHandler.map, HandlerKind.map]

theorem ExceptionHandler.marks_map (f : ρ → σ) (x : ExceptionHandler ρ) :
    (x.map f).marks = x.marks.map f := by
  obtain ⟨kind, tryStart, tryEnd?, handlerStart, handlerEnd?⟩ := x
  cases kind <;> cases tryEnd? <;> cases handlerEnd? <;> rfl

theorem ExceptionHandler.map_eq_self {f : ρ → ρ} {x : ExceptionHandler ρ}
    (hsame : ∀ h ∈ x.marks, f h = h) : x.map f = x := by
  obtain ⟨kind, tryStart, tryEnd?, handlerStart, handlerEnd?⟩ := x
  cases kind <;> cases tryEnd? <;> cases handlerEnd? <;>
    simp_all [ExceptionHandler.map, HandlerKind.map, marks, HandlerKind.filterStart?]

end

/-! ## §2  Renamings of a body -/

/-- One body is another with its handles renamed: no two instructions get one
name, they stand in the same order, and what names an instruction names it by
its new name. -/
structure Body.Renaming (f : Handle → Handle) (b c : Body) : Prop where
  injective : ∀ h k, b.instructions.contains h = true →
    b.instructions.contains k = true → f h = f k → h = k
  entries : c.instructions.entries =
    b.instructions.entries.map fun e => (f e.1, e.2.map f)
  handlers : c.handlers = b.handlers.map (·.map f)
  maxStack : c.maxStack = b.maxStack
  initLocals : c.initLocals = b.initLocals
  locals : c.locals = b.locals

/-- What leads from the handles of one list to those of another, in order, is
one to one on them. -/
theorem injective_of_map_handles {f : Handle → Handle} {l l' : InstructionList}
    (hhandles : l.handles.map f = l'.handles) {h k : Handle}
    (hh : l.contains h = true) (hk : l.contains k = true) (hsame : f h = f k) :
    h = k := by
  have hnodup : (l.handles.map f).Nodup := by
    rw [hhandles]
    exact l'.nodup_handles
  exact List.inj_on_of_nodup_map hnodup (mem_handles.mpr hh)
    (mem_handles.mpr hk) hsame

def Body.storedPosition (b : Body) (h : Handle) : Nat :=
  (b.instructions.position? h).getD noPosition

def Body.handleAt (b : Body) (p : Nat) : Handle :=
  b.instructions.handles[p]?.getD default

namespace Body

variable {b c : Body} {h : Handle}

theorem storedPosition_of_contains (hin : b.instructions.contains h = true) :
    b.instructions.handles[b.storedPosition h]? = some h := by
  obtain ⟨p, hp⟩ := exists_position? hin
  rw [storedPosition, hp]
  exact position?_eq_some_iff.mp hp

theorem handleAt_storedPosition (hin : b.instructions.contains h = true) :
    b.handleAt (b.storedPosition h) = h := by
  rw [handleAt, storedPosition_of_contains hin, Option.getD_some]

theorem map_storedPosition_handles (b : Body) :
    b.instructions.handles.map b.storedPosition = List.range b.instructions.size := by
  refine List.ext_getElem (by simp [length_handles]) ?_
  intro p hp _
  have hlt : p < b.instructions.handles.length := by simpa using hp
  have hposition : b.instructions.position? b.instructions.handles[p] = some p :=
    position?_eq_some_iff.mpr (List.getElem?_eq_getElem hlt)
  simp [storedPosition, hposition]

theorem map_handleAt_range (b : Body) :
    (List.range b.instructions.size).map b.handleAt = b.instructions.handles := by
  refine List.ext_getElem (by simp [length_handles]) ?_
  intro p _ hp
  simp [handleAt, hp]

theorem entries_eq_zip (l : InstructionList) : l.entries = l.handles.zip l.code := by
  rw [← entries_map_fst, ← entries_map_snd, List.zip_map']
  exact (List.map_id _).symm

/-- Bodies that are stored alike are one body under two sets of names. -/
theorem exists_renaming_of_toStored (hc : c.IsLinked)
    (hsame : b.toStored = c.toStored) : ∃ f, Renaming f b c := by
  have hcode : b.instructions.code.map (·.map b.storedPosition) =
      c.instructions.code.map (·.map c.storedPosition) :=
        congrArg StoredBody.instructions hsame
  have hhandlers : b.handlers.map (·.map b.storedPosition) =
      c.handlers.map (·.map c.storedPosition) :=
    congrArg StoredBody.handlers hsame
  have hsize : b.instructions.size = c.instructions.size := by
    simpa [length_code] using congrArg List.length hcode
  -- an instruction gets the name that the other body has for its position
  let f : Handle → Handle := c.handleAt ∘ b.storedPosition
  have hhandles : b.instructions.handles.map f = c.instructions.handles := by
    rw [← List.map_map, map_storedPosition_handles, hsize, map_handleAt_range]
  have hback :
      ∀ k, c.instructions.contains k = true → (c.handleAt ∘ c.storedPosition) k = k :=
    fun k hk => handleAt_storedPosition hk
  refine ⟨f, fun _ _ => injective_of_map_handles hhandles, ?_, ?_, ?_, ?_, ?_⟩
  · have hrenamed : b.instructions.code.map (·.map f) = c.instructions.code := by
      have hcode := congrArg (List.map (·.map c.handleAt)) hcode
      simp only [List.map_map, Function.comp_def, Instruction.map_map] at hcode
      refine hcode.trans ((List.map_congr_left ?_).trans (List.map_id _))
      intro i hi
      refine Instruction.map_eq_self fun t ht => hback t ?_
      obtain ⟨⟨h, _⟩, he, rfl⟩ := List.mem_map.mp (entries_map_snd _ ▸ hi)
      exact hc.targets (mem_entries.mp he) t ht
    rw [entries_eq_zip, ← hhandles, ← hrenamed, entries_eq_zip, List.zip_map]
    rfl
  · have hhandlers := congrArg (List.map (·.map c.handleAt)) hhandlers
    simp only [List.map_map, Function.comp_def, ExceptionHandler.map_map] at hhandlers
    refine Eq.symm (hhandlers.trans ((List.map_congr_left ?_).trans (List.map_id _)))
    intro x hx
    exact ExceptionHandler.map_eq_self fun k hk => hback k (hc.marks x hx k hk)
  · exact (congrArg StoredBody.maxStack hsame).symm
  · exact (congrArg StoredBody.initLocals hsame).symm
  · exact (congrArg StoredBody.locals hsame).symm

/-! ## §3  What a body names -/

def named (b : Body) : List Handle :=
  b.instructions.code.flatMap (·.targets) ++ b.handlers.flatMap (·.marks)

theorem isLinked_iff_named :
    b.IsLinked ↔ ∀ h ∈ b.named, b.instructions.contains h = true := by
  simp only [named, List.mem_append, List.mem_flatMap,
    ← entries_map_snd, List.mem_map]
  constructor
  · rintro hb t (⟨_, ⟨⟨h, i⟩, he, rfl⟩, ht⟩ | ⟨x, hx, ht⟩)
    · exact hb.targets (mem_entries.mp he) t ht
    · exact hb.marks x hx t ht
  · intro hnamed
    refine ⟨?_, ?_⟩
    · intro h i hget t ht
      exact hnamed t (.inl ⟨i, ⟨(h, i), mem_entries.mpr hget, rfl⟩, ht⟩)
    · intro x hx t ht
      exact hnamed t (.inr ⟨x, hx, ht⟩)

theorem length_toStored (b : Body) :
    b.toStored.instructions.length = b.instructions.size := by
  simp [toStored, length_code]

theorem mem_instructions_toStored {i : Instruction Nat} :
    i ∈ b.toStored.instructions ↔
    ∃ h j, b.instructions.get? h = some j ∧ j.map b.storedPosition = i := by
  rw [toStored, ← entries_map_snd, List.map_map, List.mem_map]
  constructor
  · rintro ⟨⟨h, j⟩, he, rfl⟩
    exact ⟨h, j, mem_entries.mp he, rfl⟩
  · rintro ⟨h, j, hj, rfl⟩
    exact ⟨(h, j), mem_entries.mpr hj, rfl⟩

theorem references_toStored (b : Body) :
    b.toStored.references = b.named.map b.storedPosition := by
  simp only [StoredBody.references, named, toStored,
    List.flatMap_map, List.map_append, List.map_flatMap,
    Instruction.targets_map, ExceptionHandler.marks_map]
  rfl

theorem storedPosition_lt (hin : b.instructions.contains h = true) :
    b.storedPosition h < b.instructions.size := by
  obtain ⟨hlt, _⟩ := List.getElem?_eq_some_iff.mp (storedPosition_of_contains hin)
  rwa [length_handles] at hlt

/-- A handle is stored as a position of the body exactly when it is one of the
body's: where there is room, what stands for all others lies past the end. -/
theorem storedPosition_lt_iff (hroom : b.instructions.size < noPosition) :
    b.storedPosition h < b.instructions.size ↔ b.instructions.contains h = true := by
  constructor
  · intro hlt
    cases hp : b.instructions.position? h with
    | none =>
      rw [storedPosition, hp, Option.getD_none] at hlt
      omega
    | some p =>
      exact mem_handles.mp (List.mem_of_getElem? (position?_eq_some_iff.mp hp))
  · exact storedPosition_lt

end Body

/-! ## §4  Loading -/

namespace StoredBody

variable {s : StoredBody} {identity : Nat}

theorem fault?_eq_none_iff :
    s.fault? = none ↔
      s.instructions.length ≤ capacity ∧
      ∀ p ∈ s.references, p < s.instructions.length := by
  have hdangling :
      s.dangling? = none ↔ ∀ p ∈ s.references, p < s.instructions.length := by
    simp [dangling?]
  cases hd : s.dangling? with
  | some p =>
    have hsome : ¬ ∀ p ∈ s.references, p < s.instructions.length := by
      rw [← hdangling, hd]
      simp
    simp [fault?, hd, hsome]
  | none =>
    have hall := hdangling.mp hd
    simpa [fault?, hd] using fun _ => hall

theorem handles_bind (s : StoredBody) (identity : Nat) :
    (s.bind identity).instructions.handles =
      (List.range s.instructions.length).map (Handle.mk identity) := by
  rw [bind, handles_ofList, List.length_map]

theorem code_bind (s : StoredBody) (identity : Nat) :
    (s.bind identity).instructions.code =
      s.instructions.map (·.map (Handle.mk identity)) :=
  code_ofList

theorem named_bind (s : StoredBody) (identity : Nat) :
    (s.bind identity).named = s.references.map (Handle.mk identity) := by
  rw [Body.named, code_bind]
  simp only [references, bind, List.flatMap_map, List.map_append, List.map_flatMap,
    Instruction.targets_map, ExceptionHandler.marks_map]

theorem storedPosition_bind {p : Nat} (hp : p < s.instructions.length) :
    (s.bind identity).storedPosition ⟨identity, p⟩ = p := by
  have hposition :
      (s.bind identity).instructions.position? ⟨identity, p⟩ = some p := by
    rw [position?_eq_some_iff, handles_bind]
    simp [hp]
  rw [Body.storedPosition, hposition, Option.getD_some]

variable (hreferences : ∀ p ∈ s.references, p < s.instructions.length)

include hreferences

theorem isLinked_bind : (s.bind identity).IsLinked := by
  rw [Body.isLinked_iff_named, named_bind]
  simp only [List.mem_map, ← mem_handles, handles_bind, List.mem_range]
  rintro _ ⟨p, hp, rfl⟩
  exact ⟨p, hreferences p hp, rfl⟩

/-- A body that has been loaded is stored as what it was loaded from. -/
theorem toStored_bind : (s.bind identity).toStored = s := by
  let back : Nat → Nat := (s.bind identity).storedPosition ∘ Handle.mk identity
  have hback : ∀ p ∈ s.references, back p = p :=
    fun p hp => storedPosition_bind (hreferences p hp)
  have hinstructions : s.instructions.map (·.map back) = s.instructions := by
    refine (List.map_congr_left fun i hi => ?_).trans (List.map_id _)
    refine Instruction.map_eq_self fun p hp => hback p ?_
    exact List.mem_append_left _ (List.mem_flatMap_of_mem hi hp)
  have hhandlers : s.handlers.map (·.map back) = s.handlers := by
    refine (List.map_congr_left fun x hx => ?_).trans (List.map_id _)
    refine ExceptionHandler.map_eq_self fun p hp => hback p ?_
    exact List.mem_append_right _ (List.mem_flatMap_of_mem hx hp)
  calc (s.bind identity).toStored
      = { s with
          instructions := s.instructions.map (·.map back)
          handlers := s.handlers.map (·.map back) } := by
        simp only [Body.toStored, code_bind, List.map_map,
          Function.comp_def, Instruction.map_map]
        simp only [bind, List.map_map, Function.comp_def, ExceptionHandler.map_map]
        rfl
    _ = s := by rw [hinstructions, hhandlers]

end StoredBody

/-! ## §5  Storing and loading -/

namespace Body

variable {b c : Body} {s : StoredBody} {identity : Nat}

theorem ofStored_eq_ok_iff :
    ofStored identity s = .ok b ↔ s.fault? = none ∧ b = s.bind identity := by
  rw [ofStored]
  cases s.fault? with
  | none => simp [eq_comm]
  | some e => simp

theorem exists_ofStored_iff (identity : Nat) :
    (∃ b, ofStored identity s = .ok b) ↔ s.fault? = none := by
  simp [ofStored_eq_ok_iff]

/-- What can be loaded again are the bodies that name none but their own
instructions. -/
theorem fault?_toStored (hroom : b.instructions.size < noPosition) :
    b.toStored.fault? = none ↔ b.IsLinked := by
  have hcapacity : b.instructions.size ≤ capacity := by
    simp only [noPosition, capacity] at *
    omega
  rw [StoredBody.fault?_eq_none_iff, length_toStored,
    references_toStored, isLinked_iff_named]
  simp only [hcapacity, true_and, List.forall_mem_map, storedPosition_lt_iff hroom]

/-- A body that is stored and loaded again is the old one under other names. -/
theorem exists_renaming_of_ofStored (hc : ofStored identity b.toStored = .ok c) :
    ∃ f, Renaming f b c := by
  obtain ⟨hfault, rfl⟩ := ofStored_eq_ok_iff.mp hc
  have hreferences := (StoredBody.fault?_eq_none_iff.mp hfault).2
  exact exists_renaming_of_toStored (StoredBody.isLinked_bind hreferences)
    (StoredBody.toStored_bind hreferences).symm

/-- A stored body can be loaded exactly when a list can hold it and none of its
references lies past the end. Each reference then leads to the instruction at
its position, and what was loaded is stored as what it was loaded from. A body
that leaves the last position free can be loaded from what it is stored as
exactly when it names none but its own instructions, and is then the old one
under other names. -/
theorem stored_and_loaded (identity : Nat) :
    (∀ s : StoredBody,
      ((∃ b, ofStored identity s = .ok b) ↔
        s.instructions.length ≤ capacity ∧
        ∀ p ∈ s.references, p < s.instructions.length) ∧
      ∀ b, ofStored identity s = .ok b →
        (∃ f : Nat → Handle,
          (∀ p < s.instructions.length, b.instructions.handleAt? p = some (f p)) ∧
          b.instructions.code = s.instructions.map (·.map f) ∧
          b.handlers = s.handlers.map (·.map f)) ∧
        b.IsLinked ∧ b.toStored = s) ∧
    ∀ b : Body, b.instructions.size < UInt32.size - 1 →
      ((∃ c, ofStored identity b.toStored = .ok c) ↔ b.IsLinked) ∧
      ∀ c, ofStored identity b.toStored = .ok c → ∃ f, Renaming f b c := by
  refine ⟨fun s => ⟨?_, ?_⟩, fun b hroom =>
    ⟨?_, fun c => exists_renaming_of_ofStored⟩⟩
  · rw [exists_ofStored_iff, StoredBody.fault?_eq_none_iff]
  · intro b hb
    obtain ⟨hfault, rfl⟩ := ofStored_eq_ok_iff.mp hb
    have hreferences := (StoredBody.fault?_eq_none_iff.mp hfault).2
    refine ⟨⟨Handle.mk identity, ?_, StoredBody.code_bind s identity, rfl⟩,
      StoredBody.isLinked_bind hreferences, StoredBody.toStored_bind hreferences⟩
    intro p hp
    rw [handleAt?_eq, StoredBody.handles_bind]
    simp [hp]
  · rw [exists_ofStored_iff, fault?_toStored hroom]

def jumping (goal : Handle) : Body :=
  .ofInstructions ((ofList 1 [⟨.nop, .none⟩, ⟨.ret, .none⟩]).insertAt 1
    [⟨.br, .target goal⟩])

/-- The jump to the last instruction comes back as one, and the jump to another
list is not loaded, though the body has an instruction of that index. -/
theorem stored_and_loaded_jumping :
    (jumping ⟨1, 1⟩).instructions.size < UInt32.size - 1 ∧
    (∃ c f, ofStored 7 (jumping ⟨1, 1⟩).toStored = .ok c ∧
      c.toStored = (jumping ⟨1, 1⟩).toStored ∧
      Renaming f (jumping ⟨1, 1⟩) c) ∧
    ¬ ∃ c, ofStored 7 (jumping ⟨2, 1⟩).toStored = .ok c := by
  have hlinked : (jumping ⟨1, 1⟩).IsLinked := isLinked_iff_named.mpr (by decide)
  have hforeign : ¬ (jumping ⟨2, 1⟩).IsLinked :=
    fun h => absurd (isLinked_iff_named.mp h) (by decide)
  obtain ⟨hloaded, hback⟩ := (stored_and_loaded 7).2 (jumping ⟨1, 1⟩) (by decide)
  obtain ⟨c, hc⟩ := hloaded.mpr hlinked
  obtain ⟨f, hf⟩ := hback c hc
  exact ⟨by decide, ⟨c, f, hc, ((stored_and_loaded 7).1 _).2 c hc |>.2.2, hf⟩,
    fun h => hforeign (((stored_and_loaded 7).2 (jumping ⟨2, 1⟩) (by decide)).1.mp h)⟩

end Body

end Instrumentation
