import Instrumentation.Proofs.Flow.Exploration
import Instrumentation.Proofs.Weaving.Simulation

/-!
# Insertions as splices

Applying a plan is making its insertions one after the other, and each insertion
is a splice. What holds of one splice holds of the whole sequence: old
instructions keep their handles, everything new is plain and new, and if every
block is balanced the body is refined and stays consistent. An insertion fails,
once its anchor and its slots are checked, only for want of room in the
instruction list or because its stack effects cannot be told, as those of plain
instructions always can.

Sections: §1 sequences of splices · §2 one insertion · §3 many insertions · §4
plans.
-/

namespace Instrumentation

open InstructionList

/-! ## §1  Sequences of splices -/

abbrev Placed : Type := Handle × List (Handle × Instruction Handle)

inductive Splices : Body → List Placed → Body → Prop
  | nil (b : Body) : Splices b [] b
  | cons {b w v : Body} {anchor : Handle} {block : List (Handle × Instruction Handle)}
      {rest : List Placed} :
      Splice b w anchor block → Splices w rest v →
      Splices b ((anchor, block) :: rest) v

namespace Splices

variable {b v : Body} {blocks : List Placed} {returnsValue : Bool} {h : Handle}
  {i : Instruction Handle}

theorem handlers (hs : Splices b blocks v) : v.handlers = b.handlers := by
  induction hs with
  | nil => rfl
  | cons hsplice _ ih => exact ih.trans hsplice.handlers

theorem get?_iff (hs : Splices b blocks v) :
    v.instructions.get? h = some i ↔
      b.instructions.get? h = some i ∨ ∃ x ∈ blocks, (h, i) ∈ x.2 := by
  induction hs with
  | nil => simp
  | cons hsplice _ ih => simp [ih, hsplice.get?_iff, or_assoc]

theorem get?_old (hs : Splices b blocks v) (hi : b.instructions.get? h = some i) :
    v.instructions.get? h = some i :=
  hs.get?_iff.mpr (.inl hi)

theorem plain (hs : Splices b blocks v) : ∀ x ∈ blocks, ∀ e ∈ x.2, e.2.IsPlain := by
  induction hs with
  | nil => simp
  | cons hsplice _ ih => exact List.forall_mem_cons.mpr ⟨hsplice.plain, ih⟩

theorem new (hs : Splices b blocks v) :
    ∀ x ∈ blocks, ∀ e ∈ x.2, b.instructions.contains e.1 = false := by
  induction hs with
  | nil => simp
  | cons hsplice _ ih =>
      refine List.forall_mem_cons.mpr ⟨fun e he => hsplice.new he, ?_⟩
      intro x hx e he
      have hnew := ih x hx e he
      rw [Bool.eq_false_iff] at hnew ⊢
      exact fun hin => hnew (hsplice.contains_old hin)

/-- No handle of a block is an old one. -/
theorem not_contains_of_mem (hs : Splices b blocks v) {x : Placed} (hx : x ∈ blocks)
    (hh : h ∈ x.2.map (·.1)) : b.instructions.contains h = false := by
  obtain ⟨e, he, rfl⟩ := List.mem_map.mp hh
  exact hs.new x hx e he

theorem contains_old (hs : Splices b blocks v)
    (hin : b.instructions.contains h = true) :
    v.instructions.contains h = true := by
  obtain ⟨i, hi⟩ := contains_iff_get?.mp hin
  exact contains_of_get? (hs.get?_old hi)

/-- Only old instructions name others. -/
theorem get?_old_of_target (hs : Splices b blocks v)
    (hi : v.instructions.get? h = some i) {t : Handle} (ht : t ∈ i.targets) :
    b.instructions.get? h = some i := by
  rcases hs.get?_iff.mp hi with hold | ⟨x, hx, hmem⟩
  · exact hold
  · simp [(hs.plain x hx _ hmem).targets] at ht

/-- The handles of a block denote the instructions of the block. -/
theorem map_get? (hs : Splices b blocks v) {x : Placed} (hx : x ∈ blocks) :
    (x.2.map (·.1)).map v.instructions.get? = (x.2.map (·.2)).map some := by
  rw [List.map_map, List.map_map]
  refine List.map_congr_left ?_
  intro e he
  exact hs.get?_iff.mpr (.inr ⟨x, hx, he⟩)

theorem last? (hs : Splices b blocks v) :
    v.instructions.last? = b.instructions.last? := by
  induction hs with
  | nil => rfl
  | cons hsplice _ ih => exact ih.trans hsplice.last?

/-- Balanced blocks refine a body. -/
theorem refines (hs : Splices b blocks v) (hb : b.IsLinked)
    (hbalanced : ∀ x ∈ blocks, depthAfter 0 (x.2.map (·.2)) = some 0) :
    Refines b v returnsValue := by
  induction hs with
  | nil => exact .refl hb
  | cons hsplice _ ih =>
      obtain ⟨hfirst, hrest⟩ := List.forall_mem_cons.mp hbalanced
      exact (refines_of_splice hsplice hb hfirst).trans
        (ih (hsplice.isLinked hb) hrest)

/-- Balanced blocks keep a body consistent. -/
theorem consistent (hs : Splices b blocks v) (hb : b.IsLinked)
    (hbalanced : ∀ x ∈ blocks, depthAfter 0 (x.2.map (·.2)) = some 0)
    (hcons : b.Consistent returnsValue) : v.Consistent returnsValue := by
  induction hs with
  | nil => exact hcons
  | cons hsplice _ ih =>
      obtain ⟨hfirst, hrest⟩ := List.forall_mem_cons.mp hbalanced
      exact ih (hsplice.isLinked hb) hrest
        (consistent_of_splice hsplice hb hfirst hcons)

end Splices

/-! ## §2  One insertion -/

/-- The declared stack is as large as the analysis asks for, where it has an
answer. -/
def Body.CoversStack (b : Body) (returnsValue : Bool) : Prop :=
  ∀ required, b.requiredStack returnsValue = .ok required → required ≤ b.maxStack

theorem Body.widenStack_eq (b : Body) (returnsValue : Bool) (added : Nat) :
    ∃ maxStack, b.widenStack returnsValue added = { b with maxStack } := by
  unfold widenStack
  split
  · exact ⟨_, rfl⟩
  · exact ⟨_, rfl⟩

section

variable (b : Body) (returnsValue : Bool) (added : Nat)

@[simp]
theorem Body.widenStack_instructions :
    (b.widenStack returnsValue added).instructions = b.instructions := by
  obtain ⟨maxStack, heq⟩ := b.widenStack_eq returnsValue added
  rw [heq]

@[simp]
theorem Body.widenStack_locals :
    (b.widenStack returnsValue added).locals = b.locals := by
  obtain ⟨maxStack, heq⟩ := b.widenStack_eq returnsValue added
  rw [heq]

@[simp]
theorem Body.widenStack_handlers :
    (b.widenStack returnsValue added).handlers = b.handlers := by
  obtain ⟨maxStack, heq⟩ := b.widenStack_eq returnsValue added
  rw [heq]

@[simp]
theorem Body.widenStack_initLocals :
    (b.widenStack returnsValue added).initLocals = b.initLocals := by
  obtain ⟨maxStack, heq⟩ := b.widenStack_eq returnsValue added
  rw [heq]

end

theorem Body.toNat_max (n k : UInt16) : (max n k).toNat = max n.toNat k.toNat := by
  show (if n ≤ k then k else n).toNat = _
  split
  · rename_i hle
    exact (Nat.max_eq_right (UInt16.le_iff_toNat_le.mp hle)).symm
  · rename_i hnot
    exact (Nat.max_eq_left
      (Nat.le_of_not_le (hnot ∘ UInt16.le_iff_toNat_le.mpr))).symm

theorem Body.toNat_addStack (declared : UInt16) (added : Nat) :
    (addStack declared added).toNat =
      min (declared.toNat + added) (UInt16.size - 1) := by
  refine UInt16.toNat_ofNat_of_lt' ?_
  simp only [UInt16.size]
  omega

/-- A declared stack never shrinks. -/
theorem Body.le_widenStack (b : Body) (returnsValue : Bool) (added : Nat) :
    b.maxStack ≤ (b.widenStack returnsValue added).maxStack := by
  unfold widenStack
  split
  · rw [UInt16.le_iff_toNat_le, toNat_max]
    exact Nat.le_max_left _ _
  · have hlt := b.maxStack.toNat_lt_size
    rw [UInt16.le_iff_toNat_le, toNat_addStack]
    omega

theorem Body.coversStack_widenStack (b : Body) (returnsValue : Bool) (added : Nat) :
    (b.widenStack returnsValue added).CoversStack returnsValue := by
  intro required hrequired
  have hsame : b.requiredStack returnsValue = .ok required := by
    obtain ⟨maxStack, heq⟩ := b.widenStack_eq returnsValue added
    rw [heq] at hrequired
    have hpeak :
        { b with maxStack }.peakDepth returnsValue = b.peakDepth returnsValue :=
      peakDepth_congr (b := b) (c := { b with maxStack }) rfl rfl returnsValue
    rwa [requiredStack, hpeak] at hrequired
  have hmax :
      (b.widenStack returnsValue added).maxStack = max b.maxStack required := by
    simp only [widenStack, hsame]
  rw [hmax, UInt16.le_iff_toNat_le, toNat_max]
  exact Nat.le_max_right _ _

/-- One body is another with an insertion at a position. The declared stack
covers the need. -/
structure Body.Inserted (b w : Body) (p : Nat) (s : Insertion)
    (returnsValue : Bool) : Prop where
  instructions : w.instructions = b.instructions.insertAt p s.instructions
  locals : w.locals = b.locals ++ s.newLocals.toArray
  handlers : w.handlers = b.handlers
  covers : w.CoversStack returnsValue

def Body.insertAt (b : Body) (p : Nat) (s : Insertion) : Body :=
  { b with locals := b.locals ++ s.newLocals.toArray
           instructions := b.instructions.insertAt p s.instructions }

theorem Body.inserted_widenStack (b : Body) (p : Nat) (s : Insertion)
    (returnsValue : Bool) (added : Nat) :
    b.Inserted ((b.insertAt p s).widenStack returnsValue added) p s returnsValue := by
  have hcovers := (b.insertAt p s).coversStack_widenStack returnsValue added
  exact ⟨widenStack_instructions .., widenStack_locals ..,
    widenStack_handlers .., hcovers⟩

theorem Body.Inserted.exists_splice {b w : Body} {p : Nat} {s : Insertion}
    {returnsValue : Bool} {anchor : Handle} (hw : b.Inserted w p s returnsValue)
    (hp : b.instructions.position? anchor = some p)
    (hplain : ∀ i ∈ s.instructions, i.IsPlain) :
    ∃ block, Splice b w anchor block ∧ block.map (·.2) = s.instructions := by
  have hlength := b.instructions.length_fresh s.instructions.length
  refine ⟨(b.instructions.fresh s.instructions.length).zip s.instructions,
    ⟨?_, hw.handlers, ?_⟩, ?_⟩
  · rw [hw.instructions]
    exact entries_insertAt s.instructions hp
  · intro e he
    exact hplain _ (List.of_mem_zip he).2
  · exact List.map_snd_zip (by omega)

namespace MethodDef

variable {m m' : MethodDef Body} {b : Body} {anchor : Handle} {s : Insertion}

/-- What an insertion makes of a body if its anchor, its slots, its room and its
stack effects are in order. -/
theorem insertBefore_eq (hbody : m.body? = some b)
    (hin : b.instructions.contains anchor = true)
    (hlocals : b.locals.size + s.newLocals.length ≤ Body.maxLocals)
    (hroom : s.instructions.length ≤ capacity - b.instructions.size) {added : Nat}
    (hadded : s.peak = .ok added) :
    ∃ p, b.instructions.position? anchor = some p ∧
      m.insertBefore anchor s =
        (.ok (),
          m.withBody (some ((b.insertAt p s).widenStack m.returnsValue added))) := by
  have hfits : ¬ Body.maxLocals < b.locals.size + s.newLocals.length :=
    Nat.not_lt.mpr hlocals
  obtain ⟨p, hp, hinsert⟩ := insertBefore_of_contains hin s.instructions
  rw [if_pos hroom, List.take_of_length_le hroom] at hinsert
  refine ⟨p, hp, ?_⟩
  simp only [insertBefore, hbody, hin, Bool.not_true, Bool.false_eq_true, if_false,
    if_neg hfits, hadded, hinsert, Body.insertAt]

/-- An insertion whose anchor and slots are in order and that there is room for
is made if its stack effects can be told, and changes nothing if they cannot. -/
theorem insertBefore_of_fits (hbody : m.body? = some b)
    (hin : b.instructions.contains anchor = true)
    (hlocals : b.locals.size + s.newLocals.length ≤ Body.maxLocals)
    (hroom : s.instructions.length ≤ capacity - b.instructions.size) :
    (∀ cause, s.peak = .error cause →
      m.insertBefore anchor s = (.error (.malformedSequence cause), m)) ∧
    ∀ added, s.peak = .ok added →
      ∃ p w, b.instructions.position? anchor = some p ∧
        m.insertBefore anchor s = (.ok (), m.withBody (some w)) ∧
        b.Inserted w p s m.returnsValue := by
  have hfits : ¬ Body.maxLocals < b.locals.size + s.newLocals.length :=
    Nat.not_lt.mpr hlocals
  constructor
  · intro cause hcause
    simp only [insertBefore, hbody, hin, Bool.not_true, Bool.false_eq_true, if_false,
      if_neg hfits, hcause]
  · intro added hadded
    obtain ⟨p, hp, heq⟩ := insertBefore_eq hbody hin hlocals hroom hadded
    exact ⟨p, _, hp, heq, b.inserted_widenStack p s m.returnsValue added⟩

/-- An insertion that succeeds had its anchor, its slots, its stack effects and
its room in order. -/
theorem fits_of_insertBefore (hbody : m.body? = some b)
    (hok : m.insertBefore anchor s = (.ok (), m')) :
    b.instructions.contains anchor = true ∧
      b.locals.size + s.newLocals.length ≤ Body.maxLocals ∧
      (∃ added, s.peak = .ok added) ∧
      s.instructions.length ≤ capacity - b.instructions.size := by
  simp only [insertBefore, hbody] at hok
  split at hok
  · simp at hok
  rename_i hin
  have hin : b.instructions.contains anchor = true := by simpa using hin
  split at hok
  · simp at hok
  rename_i hlocals
  split at hok
  · simp at hok
  rename_i added hadded
  obtain ⟨p, -, hinsert⟩ := insertBefore_of_contains hin s.instructions
  rw [hinsert] at hok
  by_cases hroom : s.instructions.length ≤ capacity - b.instructions.size
  · exact ⟨hin, Nat.le_of_not_lt hlocals, ⟨added, hadded⟩, hroom⟩
  · simp [if_neg hroom] at hok

/-- An insertion that succeeds is a splice; it adds its slots and lets the
declared stack cover the need. -/
theorem insertBefore_eq_ok (hbody : m.body? = some b)
    (hplain : ∀ i ∈ s.instructions, i.IsPlain)
    (hok : m.insertBefore anchor s = (.ok (), m')) :
    ∃ w block, m' = m.withBody (some w) ∧ Splice b w anchor block ∧
      block.map (·.2) = s.instructions ∧
      block.length ≤ capacity - b.instructions.size ∧
      w.locals = b.locals ++ s.newLocals.toArray ∧ w.CoversStack m.returnsValue := by
  obtain ⟨hin, hlocals, ⟨added, hadded⟩, hroom⟩ := fits_of_insertBefore hbody hok
  obtain ⟨p, w, hp, heq, hw⟩ :=
    (insertBefore_of_fits hbody hin hlocals hroom).2 added hadded
  obtain ⟨block, hsplice, hcode⟩ := hw.exists_splice hp hplain
  refine ⟨w, block, (Prod.mk.inj (hok.symm.trans heq)).2, hsplice, hcode, ?_,
    hw.locals, hw.covers⟩
  rwa [← hcode, List.length_map] at hroom

end MethodDef

/-! ## §3  Many insertions -/

structure Body.Fits (b : Body) (steps : List (Handle × Insertion)) : Prop where
  anchors : ∀ step ∈ steps, b.instructions.contains step.1 = true
  slots : b.locals.size + (steps.flatMap (·.2.newLocals)).length ≤ maxLocals
  room : (steps.map (·.2.instructions.length)).sum ≤ capacity - b.instructions.size

/-- What insertions leave of a body: all it had, and besides it what they were
to bring. -/
structure Body.Grown (b w : Body) (steps : List (Handle × Insertion)) : Prop where
  get? : ∀ {h i}, b.instructions.get? h = some i → w.instructions.get? h = some i
  handlers : w.handlers = b.handlers
  size : w.instructions.size =
    b.instructions.size + (steps.map (·.2.instructions.length)).sum
  locals : w.locals = b.locals ++ (steps.flatMap (·.2.newLocals)).toArray

section

variable {b w v : Body} {step : Handle × Insertion}
  {front back : List (Handle × Insertion)}

theorem Body.Grown.contains (hw : b.Grown w front) {h : Handle}
    (hin : b.instructions.contains h = true) :
    w.instructions.contains h = true := by
  obtain ⟨i, hi⟩ := contains_iff_get?.mp hin
  exact contains_of_get? (hw.get? hi)

theorem Body.Grown.refl (b : Body) : b.Grown b [] :=
  ⟨id, rfl, by simp, by simp⟩

theorem Body.Grown.append (hw : b.Grown w front) (hv : w.Grown v back) :
    b.Grown v (front ++ back) := by
  refine ⟨fun hi => hv.get? (hw.get? hi), hv.handlers.trans hw.handlers, ?_, ?_⟩
  · rw [hv.size, hw.size, List.map_append, List.sum_append]
    omega
  · rw [hv.locals, hw.locals, List.flatMap_append]
    simp

theorem Body.Inserted.grown {p : Nat} {returnsValue : Bool}
    (hw : b.Inserted w p step.2 returnsValue) : b.Grown w [step] := by
  refine ⟨?_, hw.handlers, ?_, ?_⟩
  · intro h i hi
    rw [hw.instructions]
    exact get?_insertAt hi
  · rw [hw.instructions, size_insertAt]
    simp
  · rw [hw.locals]
    simp

/-- Insertions that fit go on fitting while they are made. -/
theorem Body.Fits.of_append (hfits : b.Fits (front ++ back)) :
    b.Fits front ∧ ∀ {w : Body}, b.Grown w front → w.Fits back := by
  obtain ⟨hanchors, hslots, hroom⟩ := hfits
  rw [List.flatMap_append, List.length_append] at hslots
  rw [List.map_append, List.sum_append] at hroom
  refine ⟨⟨fun step hstep => hanchors step (List.mem_append_left _ hstep),
    by omega, by omega⟩, ?_⟩
  intro w hw
  have hsize :
      w.locals.size = b.locals.size + (front.flatMap (·.2.newLocals)).length := by
    rw [hw.locals]
    simp
  have hgrown := hw.size
  refine ⟨?_, by omega, by omega⟩
  intro step hstep
  exact hw.contains (hanchors step (List.mem_append_right _ hstep))

end

namespace MethodDef

variable {m m' : MethodDef Body} {b : Body} {step : Handle × Insertion}
  {steps : List (Handle × Insertion)}

theorem insertBefore_of_step (hbody : m.body? = some b) (hfits : b.Fits [step]) :
    (∀ cause, step.2.peak = .error cause →
      m.insertBefore step.1 step.2 = (.error (.malformedSequence cause), m)) ∧
    ∀ added, step.2.peak = .ok added →
      ∃ w, m.insertBefore step.1 step.2 = (.ok (), m.withBody (some w)) ∧
        b.Grown w [step] := by
  obtain ⟨hanchors, hslots, hroom⟩ := hfits
  simp only [List.flatMap_cons, List.flatMap_nil, List.append_nil, List.map_cons,
    List.map_nil, List.sum_cons, List.sum_nil, Nat.add_zero] at hslots hroom
  obtain ⟨hbad, hgood⟩ :=
    insertBefore_of_fits hbody (hanchors step List.mem_cons_self) hslots hroom
  refine ⟨hbad, ?_⟩
  intro added hadded
  obtain ⟨p, w, -, hok, hw⟩ := hgood added hadded
  exact ⟨w, hok, hw.grown⟩

/-- Insertions that fit are all made if their stack effects can be told. -/
theorem insertAll_of_fits (hbody : m.body? = some b) (hfits : b.Fits steps)
    (hsteps : ∀ step ∈ steps, ∃ added, step.2.peak = .ok added) :
    ∃ w, m.insertAll steps = (.ok (), m.withBody (some w)) ∧ b.Grown w steps := by
  -- by induction on the steps: what is still to be inserted fits the body as it
  -- is by then
  induction steps generalizing m b with
  | nil =>
      refine ⟨b, ?_, .refl b⟩
      rw [← hbody]
      rfl
  | cons step steps ih =>
      obtain ⟨⟨added, hadded⟩, hrest⟩ := List.forall_mem_cons.mp hsteps
      have hsplit : b.Fits ([step] ++ steps) := hfits
      obtain ⟨hone, hlater⟩ := hsplit.of_append
      obtain ⟨w, hok, hw⟩ := (insertBefore_of_step hbody hone).2 added hadded
      obtain ⟨v, hall, hv⟩ := ih (m := m.withBody (some w)) rfl (hlater hw) hrest
      refine ⟨v, ?_, hw.append hv⟩
      rw [insertAll, hok]
      exact hall

/-- Nothing speaks against insertions if their anchors and their slots are in
order. -/
theorem planFault?_eq_none_iff :
    m.planFault? b steps = none ↔
      (∀ step ∈ steps, b.instructions.contains step.1 = true) ∧
        b.locals.size + (steps.flatMap (·.2.newLocals)).length ≤ Body.maxLocals := by
  have hfind : steps.find? (fun step => !b.instructions.contains step.1) = none ↔
      ∀ step ∈ steps, b.instructions.contains step.1 = true := by
    simp
  rw [← hfind, planFault?]
  constructor
  · intro hnone
    split at hnone
    · simp at hnone
    · rename_i hanchors
      split at hnone
      · simp at hnone
      · rename_i hslots
        exact ⟨hanchors, Nat.le_of_not_lt hslots⟩
  · rintro ⟨hanchors, hslots⟩
    rw [hanchors]
    exact if_neg (Nat.not_lt.mpr hslots)

/-- Insertions that succeed are a sequence of splices. -/
theorem insertAll_eq_ok (hbody : m.body? = some b)
    (hplain : ∀ step ∈ steps, ∀ i ∈ step.2.instructions, i.IsPlain)
    (hok : m.insertAll steps = (.ok (), m')) :
    ∃ v blocks, m' = m.withBody (some v) ∧ Splices b blocks v ∧
      blocks.map (fun x => (x.1, x.2.map (·.2))) =
        steps.map (fun step => (step.1, step.2.instructions)) ∧
      v.locals = b.locals ++ (steps.flatMap (·.2.newLocals)).toArray ∧
      (steps ≠ [] → v.CoversStack m.returnsValue) := by
  induction steps generalizing m b with
  | nil =>
      simp only [insertAll, Prod.mk.injEq, true_and] at hok
      refine ⟨b, [], ?_, .nil b, rfl, by simp, by simp⟩
      rw [← hok, ← hbody]
      rfl
  | cons step steps ih =>
      obtain ⟨anchor, s⟩ := step
      obtain ⟨hfirst, hrest⟩ := List.forall_mem_cons.mp hplain
      rw [insertAll] at hok
      split at hok
      · rename_i m₁ hone
        obtain ⟨w, block, rfl, hsplice, hcode, -, hlocals, hcovers⟩ :=
          insertBefore_eq_ok hbody hfirst hone
        obtain ⟨v, blocks, rfl, hsplices, hcodes, hlocals', hcovers'⟩ :=
          ih rfl hrest hok
        refine ⟨v, (anchor, block) :: blocks, rfl, .cons hsplice hsplices, ?_, ?_, ?_⟩
        · rw [List.map_cons, List.map_cons, hcode, hcodes]
        · rw [hlocals', hlocals]
          simp
        · intro _
          cases steps with
          | nil =>
              cases blocks with
              | nil =>
                  cases hsplices
                  exact hcovers
              | cons x blocks => simp at hcodes
          | cons step steps => exact hcovers' (by simp)
      · simp at hok

end MethodDef

/-! ## §4  Plans -/

theorem exists_step_of_block {blocks : List Placed}
    {steps : List (Handle × Insertion)} {x : Placed}
    (hcodes : blocks.map (fun x => (x.1, x.2.map (·.2))) =
      steps.map (fun step => (step.1, step.2.instructions))) (hx : x ∈ blocks) :
    ∃ step ∈ steps, step.1 = x.1 ∧ step.2.instructions = x.2.map (·.2) := by
  have hmem := List.mem_map_of_mem (f := fun x : Placed => (x.1, x.2.map (·.2))) hx
  rw [hcodes] at hmem
  obtain ⟨step, hstep, heq⟩ := List.mem_map.mp hmem
  exact ⟨step, hstep, Prod.mk.inj heq⟩

theorem exists_block_of_step {blocks : List Placed}
    {steps : List (Handle × Insertion)} {step : Handle × Insertion}
    (hcodes : blocks.map (fun x => (x.1, x.2.map (·.2))) =
      steps.map (fun step => (step.1, step.2.instructions))) (hstep : step ∈ steps) :
    ∃ x ∈ blocks, x.1 = step.1 ∧ x.2.map (·.2) = step.2.instructions := by
  have hmem := List.mem_map_of_mem
    (f := fun step : Handle × Insertion => (step.1, step.2.instructions)) hstep
  rw [← hcodes] at hmem
  obtain ⟨x, hx, heq⟩ := List.mem_map.mp hmem
  exact ⟨x, hx, Prod.mk.inj heq⟩

def Plan.length (p : Plan) : Nat :=
  ((p.entry :: p.exits).map (·.2.instructions.length)).sum

/-- The exit calls of a body, each with the return that it goes before. -/
def Body.exitCalls (b : Body) (logger : FieldRef) (callable : MethodRef) :
    ExitLogging → List (Handle × Insertion)
  | .enabled emptyArray message =>
      b.exits.map fun site => (site, exitCall logger callable emptyArray message)
  | .disabled | .unavailable _ => []

/-- What planning makes of a method: the entry call before the first instruction
and an exit call before every exit. -/
structure Plan.Suits (p : Plan) (m : MethodDef Body) (b : Body) (logger : FieldRef)
    (callable : MethodRef) (exit : ExitLogging) : Prop where
  body : m.body? = some b
  parameters : m.params.length < UInt16.size
  slots : b.locals.size < UInt16.size
  first : b.instructions.first? = some p.entry.1
  entry :
    p.entry.2 = ⟨entryCode m logger callable (UInt16.ofNat b.locals.size), [.objects]⟩
  exits : p.exits = b.exitCalls logger callable exit
  available : ∀ cause, exit ≠ .unavailable cause

/-- One body is another with the log calls of a plan: the entry call first, then
the exit calls. -/
structure Plan.Applied (p : Plan) (b w : Body)
    (entry : List (Handle × Instruction Handle)) (exits : List Placed) : Prop where
  splices : Splices b ((p.entry.1, entry) :: exits) w
  entryCode : entry.map (·.2) = p.entry.2.instructions
  exitCodes : exits.map (fun x => (x.1, x.2.map (·.2))) =
    p.exits.map (fun step => (step.1, step.2.instructions))

/-- What holds of the code of every log call of a plan holds of every block. -/
theorem Plan.Applied.forall_code {p : Plan} {b w : Body}
    {entry : List (Handle × Instruction Handle)} {exits : List Placed}
    {P : List (Instruction Handle) → Prop} (ha : p.Applied b w entry exits)
    (hcode : ∀ step ∈ p.entry :: p.exits, P step.2.instructions) :
    ∀ x ∈ (p.entry.1, entry) :: exits, P (x.2.map (·.2)) := by
  obtain ⟨hfirst, hrest⟩ := List.forall_mem_cons.mp hcode
  refine List.forall_mem_cons.mpr ⟨by rw [ha.entryCode]; exact hfirst, ?_⟩
  intro x hx
  obtain ⟨step, hstep, -, heq⟩ := exists_step_of_block ha.exitCodes hx
  exact heq ▸ hrest step hstep

/-- What holds of the anchor of every log call of a plan holds of the anchor of
every block. -/
theorem Plan.Applied.forall_anchor {p : Plan} {b w : Body}
    {entry : List (Handle × Instruction Handle)} {exits : List Placed}
    {P : Handle → Prop} (ha : p.Applied b w entry exits)
    (hanchor : ∀ step ∈ p.entry :: p.exits, P step.1) :
    ∀ x ∈ (p.entry.1, entry) :: exits, P x.1 := by
  obtain ⟨hfirst, hrest⟩ := List.forall_mem_cons.mp hanchor
  refine List.forall_mem_cons.mpr ⟨hfirst, ?_⟩
  intro x hx
  obtain ⟨step, hstep, heq, -⟩ := exists_step_of_block ha.exitCodes hx
  exact heq ▸ hrest step hstep

theorem Body.nodup_exits (b : Body) : b.exits.Nodup := by
  have hreturns : b.returns.Sublist (b.instructions.entries.map (·.1)) :=
    List.filter_sublist.map _
  exact (hreturns.nodup b.instructions.nodup_entries_fst).filter _

theorem Body.exists_get?_of_mem_exits {b : Body} {h : Handle} (hmem : h ∈ b.exits) :
    ∃ i, b.instructions.get? h = some i ∧ i.op.isReturn = true := by
  obtain ⟨⟨k, i⟩, he, rfl⟩ := List.mem_map.mp (List.mem_of_mem_filter hmem)
  obtain ⟨hentry, hreturn⟩ := List.mem_filter.mp he
  exact ⟨i, mem_entries.mp hentry, hreturn⟩

theorem MethodDef.entryCall_eq_ok {m : MethodDef Body} {b : Body} {logger : FieldRef}
    {callable : MethodRef} {s : Insertion} (hbody : m.body? = some b)
    (hok : m.entryCall logger callable = .ok s) :
    m.params.length < UInt16.size ∧ b.locals.size < UInt16.size ∧
      s = ⟨entryCode m logger callable (UInt16.ofNat b.locals.size), [.objects]⟩ := by
  have hlocals : m.ownLocals = b.locals := by rw [ownLocals, hbody]
  rw [← hlocals]
  exact eq_of_entryCall hok

theorem MethodDef.plan_eq_ok {m : MethodDef Body} {logger : FieldRef}
    {callable : MethodRef} {exit : ExitLogging} {p : Plan}
    (hplan : m.plan logger callable exit = .ok p) :
    ∃ b, p.Suits m b logger callable exit := by
  unfold plan at hplan
  split at hplan
  · simp at hplan
  rename_i b hbody
  split at hplan
  · simp at hplan
  rename_i first hfirst
  split at hplan
  · simp at hplan
  rename_i entry hentry
  obtain ⟨hparams, hslots, rfl⟩ := entryCall_eq_ok hbody hentry
  refine ⟨b, ?_⟩
  cases exit with
  | disabled =>
      obtain rfl := (Except.ok.inj hplan)
      exact ⟨hbody, hparams, hslots, hfirst, rfl, rfl, by simp⟩
  | unavailable cause => simp at hplan
  | enabled emptyArray message =>
      obtain rfl := (Except.ok.inj hplan)
      exact ⟨hbody, hparams, hslots, hfirst, rfl, rfl, by simp⟩

/-- A plan for a method with a known body is one for that body. -/
theorem MethodDef.suits_of_plan {m : MethodDef Body} {b : Body} {logger : FieldRef}
    {callable : MethodRef} {exit : ExitLogging} {p : Plan} (hbody : m.body? = some b)
    (hplan : m.plan logger callable exit = .ok p) :
    p.Suits m b logger callable exit := by
  obtain ⟨b', hp⟩ := plan_eq_ok hplan
  obtain rfl : b = b' := Option.some.inj (hbody.symm.trans hp.body)
  exact hp

/-- There is a plan for every method with an instruction whose slots and
parameters can be numbered. -/
theorem MethodDef.exists_plan {m : MethodDef Body} {b : Body}
    (logger : FieldRef) (callable : MethodRef) {exit : ExitLogging} {h : Handle}
    (hbody : m.body? = some b) (hfirst : b.instructions.first? = some h)
    (hparams : m.params.length < UInt16.size) (hslots : b.locals.size < UInt16.size)
    (havailable : ∀ cause, exit ≠ .unavailable cause) :
    ∃ p, m.plan logger callable exit = .ok p := by
  have hfew : ¬ 1 <<< 31 ≤ m.params.length := by
    simp only [UInt16.size] at hparams
    omega
  have hentry : ∃ s, m.entryCall logger callable = .ok s := by
    simp only [entryCall, hbody, if_neg hfew, if_neg (Nat.not_le.mpr hslots),
      if_neg (Nat.not_le.mpr hparams)]
    exact ⟨_, rfl⟩
  obtain ⟨s, hs⟩ := hentry
  rw [plan, hbody]
  simp only [hfirst, hs]
  cases exit with
  | disabled => exact ⟨_, rfl⟩
  | enabled emptyArray message => exact ⟨_, rfl⟩
  | unavailable cause => exact absurd rfl (havailable cause)

namespace Plan.Suits

variable {p : Plan} {m m' : MethodDef Body} {b : Body} {logger : FieldRef}
  {callable : MethodRef} {exit : ExitLogging}

theorem exit_of_mem (hp : p.Suits m b logger callable exit)
    {step : Handle × Insertion} (hstep : step ∈ p.exits) :
    step.1 ∈ b.exits ∧
      ∃ emptyArray message,
        exit = .enabled emptyArray message ∧
        step.2 = exitCall logger callable emptyArray message := by
  rw [hp.exits] at hstep
  cases exit with
  | disabled => simp [Body.exitCalls] at hstep
  | unavailable cause => simp [Body.exitCalls] at hstep
  | enabled emptyArray message =>
      obtain ⟨site, hsite, rfl⟩ := List.mem_map.mp hstep
      exact ⟨hsite, emptyArray, message, rfl, rfl⟩

/-- No return has two exit calls. -/
theorem nodup (hp : p.Suits m b logger callable exit) :
    (p.exits.map (·.1)).Nodup := by
  rw [hp.exits]
  cases exit with
  | disabled => exact List.nodup_nil
  | unavailable cause => exact List.nodup_nil
  | enabled emptyArray message =>
      simpa [Body.exitCalls, Function.comp_def] using b.nodup_exits

/-- Every log call is made of log steps over the arguments of the method and the
slot after its own. -/
theorem isLogStep (hp : p.Suits m b logger callable exit) :
    ∀ step ∈ p.entry :: p.exits, ∀ i ∈ step.2.instructions,
      IsLogStep m.params.length (UInt16.ofNat b.locals.size) i := by
  refine List.forall_mem_cons.mpr ⟨?_, ?_⟩
  · intro i hi
    rw [hp.entry] at hi
    exact isLogStep_entryCode m logger callable _ i hi
  · intro step hstep i hi
    obtain ⟨-, emptyArray, message, -, hcall⟩ := hp.exit_of_mem hstep
    rw [hcall] at hi
    exact isLogStep_exitCall _ _ logger callable emptyArray message i hi

theorem plain (hp : p.Suits m b logger callable exit) :
    ∀ step ∈ p.entry :: p.exits, ∀ i ∈ step.2.instructions, i.IsPlain := by
  intro step hstep i hi
  exact (hp.isLogStep step hstep i hi).isPlain

theorem contains (hp : p.Suits m b logger callable exit) :
    ∀ step ∈ p.entry :: p.exits, b.instructions.contains step.1 = true := by
  refine List.forall_mem_cons.mpr ⟨Body.contains_of_first? hp.first, ?_⟩
  intro step hstep
  obtain ⟨i, hi, -⟩ := Body.exists_get?_of_mem_exits (hp.exit_of_mem hstep).1
  exact contains_of_get? hi

/-- Only the entry call needs a slot. -/
theorem newLocals (hp : p.Suits m b logger callable exit) :
    (p.entry :: p.exits).flatMap (·.2.newLocals) = [.objects] := by
  have hexits : p.exits.flatMap (·.2.newLocals) = [] := by
    rw [List.flatMap_eq_nil_iff]
    intro step hstep
    obtain ⟨-, emptyArray, message, -, hcall⟩ := hp.exit_of_mem hstep
    rw [hcall]
    rfl
  rw [List.flatMap_cons, hexits, hp.entry]
  rfl

/-- The log calls are balanced if the methods they call are the right ones. -/
theorem balanced (hp : p.Suits m b logger callable exit)
    (hcallable : callable.TakesLog)
    (hempty : ∀ emptyArray message, exit = .enabled emptyArray message →
      emptyArray.GivesArray) :
    ∀ step ∈ p.entry :: p.exits, depthAfter 0 step.2.instructions = some 0 := by
  refine List.forall_mem_cons.mpr ⟨?_, ?_⟩
  · rw [hp.entry]
    exact (depthAfter_entryCode_iff m logger callable _).mpr hcallable
  · intro step hstep
    obtain ⟨-, emptyArray, message, hexit, hcall⟩ := hp.exit_of_mem hstep
    rw [hcall]
    exact depthAfter_exitCall logger message hcallable
      (hempty emptyArray message hexit)

theorem blocks_balanced (hp : p.Suits m b logger callable exit)
    (hcallable : callable.TakesLog)
    (hempty : ∀ emptyArray message, exit = .enabled emptyArray message →
      emptyArray.GivesArray)
    {w : Body} {entry : List (Handle × Instruction Handle)} {exits : List Placed}
    (ha : p.Applied b w entry exits) :
    ∀ x ∈ (p.entry.1, entry) :: exits, depthAfter 0 (x.2.map (·.2)) = some 0 :=
  ha.forall_code (P := fun code => depthAfter 0 code = some 0)
    (hp.balanced hcallable hempty)

/-- The log calls of a plan fit if the instruction list has room for them. -/
theorem fits (hp : p.Suits m b logger callable exit)
    (hroom : b.instructions.size + p.length ≤ capacity) :
    b.Fits (p.entry :: p.exits) := by
  refine ⟨hp.contains, ?_, ?_⟩
  · rw [hp.newLocals]
    exact hp.slots
  · rw [length] at hroom
    omega

/-- A plan can be applied if the instruction list has room for it. -/
theorem apply_ok (hp : p.Suits m b logger callable exit)
    (hroom : b.instructions.size + p.length ≤ capacity) :
    ∃ m', m.apply p = (.ok p.exits.length, m') := by
  have hfits := hp.fits hroom
  have hfault : m.planFault? b (p.entry :: p.exits) = none :=
    MethodDef.planFault?_eq_none_iff.mpr ⟨hfits.anchors, hfits.slots⟩
  obtain ⟨w, hall, -⟩ := MethodDef.insertAll_of_fits hp.body hfits fun step hstep =>
    Insertion.exists_peak (hp.plain step hstep)
  refine ⟨m.withBody (some w), ?_⟩
  rw [MethodDef.apply, hp.body]
  simp only [hfault, hall]

/-- A plan that suits one method may be applied to another: that, too, is a
sequence of splices, one for each of its log calls, and adds one slot. -/
theorem applied_to (hp : p.Suits m b logger callable exit)
    {left m' : MethodDef Body} {c : Body} {n : Nat} (hbody : left.body? = some c)
    (hok : left.apply p = (.ok n, m')) :
    n = p.exits.length ∧
      ∃ w entry exits, m' = left.withBody (some w) ∧ p.Applied c w entry exits ∧
        w.locals = c.locals.push .objects ∧ w.CoversStack left.returnsValue := by
  rw [MethodDef.apply, hbody] at hok
  simp only at hok
  split at hok
  · simp at hok
  split at hok
  · rename_i after hall
    obtain ⟨rfl, rfl⟩ : p.exits.length = n ∧ after = m' := by simpa using hok
    obtain ⟨w, blocks, rfl, hsplices, hcodes, hlocals, hcovers⟩ :=
      MethodDef.insertAll_eq_ok hbody hp.plain hall
    cases blocks with
    | nil => simp at hcodes
    | cons x exits =>
        obtain ⟨anchor, entry⟩ := x
        simp only [List.map_cons, List.cons.injEq, Prod.mk.injEq] at hcodes
        obtain ⟨⟨rfl, hentry⟩, hexits⟩ := hcodes
        refine ⟨rfl, w, entry, exits, rfl, ⟨hsplices, hentry, hexits⟩, ?_,
          hcovers (by simp)⟩
        rw [hlocals, hp.newLocals]
        simp
  · simp at hok

/-- Applying a plan that suits a method is a sequence of splices, one for each
of its log calls. -/
theorem applied (hp : p.Suits m b logger callable exit) {n : Nat}
    (hok : m.apply p = (.ok n, m')) :
    n = p.exits.length ∧
      ∃ w entry exits, m' = m.withBody (some w) ∧ p.Applied b w entry exits ∧
        w.locals = b.locals.push .objects ∧ w.CoversStack m.returnsValue :=
  hp.applied_to hp.body hok

end Plan.Suits

end Instrumentation
