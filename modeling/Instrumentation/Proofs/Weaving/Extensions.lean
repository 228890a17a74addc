import Instrumentation.Proofs.Stored.Loading
import Instrumentation.Proofs.Weaving.PassReport

/-!
# Extended bodies

Whatever becomes of an insertion, it takes nothing away: the body that is left
has all the instructions, slots and handlers that it had, and what it has
besides them is of the insertion. That also holds of an insertion that breaks
off, and so of every method that a pass leaves, instrumented or skipped. A
property of all that log calls consist of is therefore a property of all that is
new in a module after a pass.

Sections: §1 extensions · §2 insertions · §3 passes.
-/

namespace Instrumentation

open InstructionList

/-! ## §1  Extensions -/

/-- One body has all that another has, and besides it only instructions and
slots of a kind. -/
structure Body.Extends (P : Instruction Handle → Prop) (L : TypeSig → Prop)
    (b w : Body) : Prop where
  old : ∀ {h i}, b.instructions.get? h = some i → w.instructions.get? h = some i
  new : ∀ {h i}, w.instructions.get? h = some i → b.instructions.get? h = some i ∨ P i
  locals : ∀ {t}, t ∈ w.locals → t ∈ b.locals ∨ L t
  handlers : w.handlers = b.handlers
  size : b.instructions.size ≤ capacity → w.instructions.size ≤ capacity

namespace Body.Extends

variable {P : Instruction Handle → Prop} {L : TypeSig → Prop} {b w v : Body}

theorem refl (b : Body) : b.Extends P L b := ⟨id, .inl, .inl, rfl, id⟩

theorem trans (hw : b.Extends P L w) (hv : w.Extends P L v) : b.Extends P L v := by
  refine ⟨fun hi => hv.old (hw.old hi), ?_, ?_, hv.handlers.trans hw.handlers,
    fun hb => hv.size (hw.size hb)⟩
  · intro h i hi
    rcases hv.new hi with hold | hnew
    · exact hw.new hold
    · exact .inr hnew
  · intro t ht
    rcases hv.locals ht with hold | hnew
    · exact hw.locals hold
    · exact .inr hnew

theorem contains (hw : b.Extends P L w) {h : Handle}
    (hin : b.instructions.contains h = true) :
    w.instructions.contains h = true := by
  obtain ⟨i, hi⟩ := contains_iff_get?.mp hin
  exact contains_of_get? (hw.old hi)

/-- A body that names its own instructions only goes on to do so if what is
added refers to nothing. -/
theorem isLinked (hw : b.Extends P L w) (hP : ∀ i, P i → i.targets = [])
    (hb : b.IsLinked) : w.IsLinked := by
  refine ⟨?_, ?_⟩
  · intro h i hi t ht
    rcases hw.new hi with hold | hnew
    · exact hw.contains (hb.targets hold t ht)
    · simp [hP i hnew] at ht
  · intro x hx h hh
    exact hw.contains (hb.marks x (hw.handlers ▸ hx) h hh)

/-- A sound body stays sound. -/
theorem sound (hw : b.Extends P L w) (hP : ∀ i, P i → i.targets = [])
    (hb : b.Sound) : w.Sound :=
  ⟨hw.isLinked hP hb.linked, hw.size hb.size⟩

end Body.Extends

/-! ## §2  Insertions -/

structure Insertion.Consists (P : Instruction Handle → Prop) (L : TypeSig → Prop)
    (s : Insertion) : Prop where
  instructions : ∀ i ∈ s.instructions, P i
  locals : ∀ t ∈ s.newLocals, L t

def Plan.Consists (P : Instruction Handle → Prop) (L : TypeSig → Prop)
    (p : Plan) : Prop :=
  ∀ step ∈ p.entry :: p.exits, step.2.Consists P L

def Insertion.fitting (s : Insertion) (l : InstructionList) : Insertion :=
  { s with instructions := s.instructions.take (capacity - l.size) }

theorem Body.extends_insertAt {P : Instruction Handle → Prop} {L : TypeSig → Prop}
    (b : Body) {s : Insertion} (hs : s.Consists P L) {anchor : Handle} {p : Nat}
    (hp : b.instructions.position? anchor = some p) (maxStack : UInt16) :
    b.Extends P L { b.insertAt p (s.fitting b.instructions) with maxStack } := by
  refine ⟨fun hi => get?_insertAt hi, ?_, ?_, rfl, ?_⟩
  · intro h i hi
    obtain ⟨front, j, back, hb, hw⟩ :=
      entries_insertAt (s.fitting b.instructions).instructions hp
    have hi : (b.instructions.insertAt p
        (s.fitting b.instructions).instructions).get? h = some i := hi
    rw [← mem_entries, hw, List.mem_append, List.mem_append] at hi
    rw [← mem_entries, hb, List.mem_append]
    rcases hi with (hfront | hblock) | hback
    · exact .inl (.inl hfront)
    · exact .inr (hs.instructions i (List.mem_of_mem_take (List.of_mem_zip hblock).2))
    · exact .inl (.inr hback)
  · intro t ht
    rcases Array.mem_append.mp ht with hold | hnew
    · exact .inl hold
    · exact .inr (hs.locals t (by simpa [Insertion.fitting] using hnew))
  · intro hsize
    simp only [insertAt, Insertion.fitting, size_insertAt, List.length_take]
    omega

namespace MethodDef

section

variable {R : Body → Body → Prop} (hrefl : ∀ b, R b b) {m : MethodDef Body}

include hrefl

/-- What holds between a body and itself, and between a body and what it is with
an insertion, holds between what an insertion finds and what it leaves, also
where it fails. -/
theorem agree_insertBefore {anchor : Handle} {s : Insertion}
    (hinsert : ∀ b p maxStack, b.instructions.position? anchor = some p →
      R b { b.insertAt p (s.fitting b.instructions) with maxStack }) :
    m.Agree R (m.insertBefore anchor s).2 := by
  have hsame := m.agree_refl hrefl
  cases hbody : m.body? with
  | none => simpa [insertBefore, hbody] using hsame
  | some b =>
    simp only [insertBefore, hbody]
    split
    · exact hsame
    rename_i hin
    split
    · exact hsame
    split
    · exact hsame
    rename_i added _
    obtain ⟨p, hp, heq⟩ :=
      insertBefore_of_contains (by simpa using hin) s.instructions
    rw [heq]
    split
    · exact ⟨rfl, hbody ▸ .some (hinsert b p b.maxStack hp)⟩
    · obtain ⟨maxStack, hwiden⟩ :=
        (b.insertAt p (s.fitting b.instructions)).widenStack_eq m.returnsValue added
      have hgrown := hinsert b p maxStack hp
      rw [← hwiden] at hgrown
      exact ⟨rfl, hbody ▸ .some hgrown⟩

variable (htrans : ∀ {b w v}, R b w → R w v → R b v)

include htrans

theorem agree_insertAll {steps : List (Handle × Insertion)}
    (hsteps : ∀ step ∈ steps, ∀ m : MethodDef Body,
      m.Agree R (m.insertBefore step.1 step.2).2) :
    m.Agree R (m.insertAll steps).2 := by
  induction steps generalizing m with
  | nil => exact m.agree_refl hrefl
  | cons step steps ih =>
    obtain ⟨hfirst, hrest⟩ := List.forall_mem_cons.mp hsteps
    have hone := hfirst m
    rw [insertAll]
    split
    · rename_i m' hinsert
      rw [hinsert] at hone
      exact hone.trans @htrans (ih hrest)
    · rename_i e m' hinsert
      rw [hinsert] at hone
      exact hone

theorem agree_apply {p : Plan}
    (hsteps : ∀ step ∈ p.entry :: p.exits, ∀ m : MethodDef Body,
      m.Agree R (m.insertBefore step.1 step.2).2) :
    m.Agree R (m.apply p).2 := by
  have hall := agree_insertAll (m := m) hrefl htrans hsteps
  cases hbody : m.body? with
  | none => simpa [apply, hbody] using m.agree_refl hrefl
  | some b =>
    simp only [apply, hbody]
    split
    · exact m.agree_refl hrefl
    split
    · rename_i hinsert
      rwa [hinsert] at hall
    · rename_i hinsert
      rwa [hinsert] at hall

end

variable {P : Instruction Handle → Prop} {L : TypeSig → Prop} {m : MethodDef Body}

/-- An insertion leaves an extension, also where it fails. -/
theorem extends_insertBefore (anchor : Handle) {s : Insertion} (hs : s.Consists P L) :
    m.Agree (Body.Extends P L) (m.insertBefore anchor s).2 :=
  agree_insertBefore Body.Extends.refl fun b _ maxStack hp =>
    b.extends_insertAt hs hp maxStack

theorem extends_apply {p : Plan} (hp : p.Consists P L) :
    m.Agree (Body.Extends P L) (m.apply p).2 :=
  agree_apply Body.Extends.refl (fun hw hv => hw.trans hv) fun step hstep _ =>
    extends_insertBefore step.1 (hp step hstep)

end MethodDef

/-! ## §3  Passes -/

section

variable {P : Instruction Handle → Prop} {L : TypeSig → Prop} {calls : LogCalls}
  {pattern : LoggerPattern}

theorem MethodDef.extends_instrument {m : MethodDef Body}
    {typeName : String} {logger : FieldRef}
    (hplans : m.isEligible = true →
      ∀ p, m.plan logger calls.callable calls.exit = .ok p → p.Consists P L) :
    m.Agree (Body.Extends P L) (m.instrument calls typeName logger).1 := by
  have hsame := m.agree_refl (Body.Extends.refl (P := P) (L := L))
  unfold instrument
  split
  · rename_i hm
    cases hplan : m.plan logger calls.callable calls.exit with
    | error e => exact hsame
    | ok p =>
      have happly := extends_apply (m := m) (hplans hm p hplan)
      simp only
      split
      · rename_i happlied
        rwa [happlied] at happly
      · rename_i happlied
        rwa [happlied] at happly
  · exact hsame

theorem TypeDef.extends_instrument {t : TypeDef Body}
    (hplans : ∀ c ∈ t.candidates pattern, ∀ p, c.plan calls = .ok p →
      p.Consists P L) :
    t.Agree (Body.Extends P L) (t.instrument calls pattern).1 := by
  unfold instrument
  split
  · exact t.agree_refl Body.Extends.refl
  · rename_i field hfield
    refine ⟨rfl, ?_⟩
    simp only [withMethods, List.map_map]
    rw [List.forall₂_map_right_iff, List.forall₂_same]
    intro m hm
    refine MethodDef.extends_instrument fun helig p hplan => ?_
    exact hplans ⟨t, t.ownFieldRef field, m⟩
      (mem_candidates.mpr ⟨field, hfield, m, hm, helig, rfl⟩) p hplan

theorem Module.extends_instrument {home : Module Body}
    (hplans : ∀ c ∈ home.candidates pattern, ∀ p, c.plan calls = .ok p →
      p.Consists P L) (report : Report) :
    home.Agree (Body.Extends P L) (home.instrument calls pattern report).1 := by
  rw [instrument_fst]
  refine ⟨rfl, ?_⟩
  simp only [withTypes]
  rw [List.forall₂_map_right_iff, List.forall₂_same]
  exact fun t ht => TypeDef.extends_instrument fun c hc =>
    hplans c (mem_candidates_of_type ht hc)

/-- All that is new in a module after a pass is of the log calls that the pass
has planned. -/
theorem Module.extends_pass {σ : Type}
    {resolve : ModuleReference → StateM σ Resolution} {s : Settings}
    {home : Module Body} {store : σ}
    (hplans : ∀ callable, (home.foundCallable resolve s store).1 = some callable →
      ∀ c ∈ home.candidates s.loggerField, ∀ p,
        c.plan (s.logCalls callable (home.foundEmptyArray resolve s store)) = .ok p →
        p.Consists P L) :
    home.Agree (Body.Extends P L) ((home.pass resolve s).run store).1.1 := by
  cases hfound : (home.foundCallable resolve s store).1 with
  | none =>
    obtain ⟨r, hrun, -⟩ := run_pass_of_none hfound
    rw [hrun]
    exact home.agree_refl Body.Extends.refl
  | some callable =>
    obtain ⟨r, hrun, -⟩ := run_pass_of_some hfound
    rw [hrun]
    exact extends_instrument (hplans callable hfound) r

end

end Instrumentation
