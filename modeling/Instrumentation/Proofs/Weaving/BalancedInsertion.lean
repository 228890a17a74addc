import Instrumentation.Proofs.Flow.DeclaredStack
import Instrumentation.Proofs.Weaving.ControlFlow
import Instrumentation.Proofs.Weaving.Preservation

/-!
# Balanced insertions

A balanced insertion keeps a verified body verified, wherever it is put. Control
reaches the old instructions that it reached before, with the same depths: on
its way into the anchor it may pass through the insertion, and being balanced
that changes nothing ahead. Inside the insertion the depth is the one at the
anchor and what the instructions so far have left besides. So the greatest depth
of the body grows by no more than the need of the insertion, and the declared
stack would cover it even if it were only widened by that need.

Sections: §1 what control reaches · §2 depths inside a block · §3 the greatest
depth · §4 insertions.
-/

namespace Instrumentation

open InstructionList Splice

/-! ## §1  What control reaches -/

section

variable {b w : Body} {anchor : Handle} {block : List (Handle × Instruction Handle)}
  {returnsValue : Bool} {s t : FlowState}

theorem Body.Reachable.of_isChain {run : List FlowState}
    (hs : w.Reachable returnsValue s)
    (hrun : (s :: run).IsChain (w.Step returnsValue)) :
    ∀ x ∈ s :: run, w.Reachable returnsValue x :=
  hrun.induction _ _ (fun _ _ hstep hx => hx.step hstep) fun _ => hs

/-- What control approaches it reaches. -/
theorem Approaches.reachable (hs : Splice b w anchor block)
    (ha : Approaches b anchor block s t) (hreach : w.Reachable returnsValue s) :
    w.Reachable returnsValue t := by
  obtain ⟨path, hchain, hhead, -⟩ := ha.exists_path returnsValue hs
  obtain ⟨run, hrun⟩ := List.head?_eq_some_iff.mp hhead
  have hmem : t ∈ s :: run := hrun ▸ List.mem_append_right path List.mem_cons_self
  exact hreach.of_isChain (hrun ▸ hchain) t hmem

theorem Body.Reachable.of_splice (hs : Splice b w anchor block) (hb : b.IsLinked)
    (hbalanced : depthAfter 0 (block.map (·.2)) = some 0)
    (hreach : b.Reachable returnsValue t) : w.Reachable returnsValue t := by
  -- by induction on the way there: what the new body does instead of a step
  -- approaches the same state
  induction hreach with
  | enters hstart =>
      obtain ⟨s, hs', ha⟩ := exists_new_entry hs hb hbalanced hstart
      exact ha.reachable hs (.enters hs')
  | step _ hstep ih =>
      obtain ⟨s', hstep', ha⟩ := exists_new_step hs hb hbalanced hstep
      exact ha.reachable hs (ih.step hstep')

/-- Control reaches the old instructions that it reached before, with the depths
it reached them with. -/
theorem reachable_iff_of_splice (hs : Splice b w anchor block) (hb : b.IsLinked)
    (hbalanced : depthAfter 0 (block.map (·.2)) = some 0)
    (hin : b.instructions.contains t.handle = true) :
    w.Reachable returnsValue t ↔ b.Reachable returnsValue t := by
  refine ⟨?_, .of_splice hs hb hbalanced⟩
  intro hreach
  obtain ⟨t', ht', ha⟩ := exists_reachable hs hb hbalanced hreach
  obtain rfl := ha.eq_of_old hs hin
  exact ht'

/-! ## §2  Depths inside a block -/

theorem Insertion.le_peakFrom {code : List (Instruction Handle)}
    {position depth peak n : Nat}
    (hpeak : peakFrom position depth peak code = .ok n) : peak ≤ n := by
  induction code generalizing position depth peak with
  | nil => exact Nat.le_of_eq (Except.ok.inj hpeak)
  | cons i code ih =>
      rw [peakFrom] at hpeak
      cases heffect : i.effect false position with
      | error cause => simp [heffect, bind, Except.bind] at hpeak
      | ok e =>
          simp only [heffect, bind, Except.bind] at hpeak
          exact (Nat.le_max_left _ _).trans (ih hpeak)

/-- The depth after any part of the code that starts it is at most the peak. -/
theorem Insertion.depthAfter_le_peakFrom {done rest : List (Instruction Handle)}
    {position depth peak n d : Nat}
    (hpeak : peakFrom position depth peak (done ++ rest) = .ok n) (hle : depth ≤ peak)
    (hdepth : depthAfter depth done = some d) : d ≤ n := by
  -- by induction on the part: the depth so far has been counted in the peak so far
  induction done generalizing position depth peak with
  | nil =>
      obtain rfl : depth = d := by simpa [depthAfter] using hdepth
      exact hle.trans (le_peakFrom hpeak)
  | cons i done ih =>
      obtain ⟨e, he, -, hdone⟩ := depthAfter_cons_eq_some.mp hdepth
      rw [List.cons_append, peakFrom,
        Instruction.effect_position position he] at hpeak
      exact ih hpeak (Nat.le_max_right _ _) hdone

/-- Inside balanced code the depth is the one after it and what its first part
leaves. -/
theorem exists_depth_of_balanced {done rest : List (Instruction Handle)}
    {d after : Nat} (hbalanced : depthAfter 0 (done ++ rest) = some 0)
    (hdepth : depthAfter d rest = some after) :
    ∃ k, depthAfter 0 done = some k ∧ d = k + after := by
  rw [depthAfter_append, Option.bind_eq_some_iff] at hbalanced
  obtain ⟨k, hdone, hrest⟩ := hbalanced
  refine ⟨k, hdone, depthAfter_injective hdepth ?_⟩
  simpa using depthAfter_add after hrest

/-- In a block, before and after each instruction, the stack is higher than at
the anchor by no more than the block needs. -/
theorem Approaches.depth_le (hs : Splice b w anchor block) {inserted : Insertion}
    {added : Nat} (hcode : block.map (·.2) = inserted.instructions)
    (hpeak : inserted.peak = .ok added)
    (hbalanced : depthAfter 0 (block.map (·.2)) = some 0)
    (ha : Approaches b anchor block s t)
    (hnew : b.instructions.contains s.handle = false) {i : Instruction Handle}
    {after : Nat} (hi : w.Performs returnsValue s i after) :
    s.depth ≤ t.depth + added ∧ after ≤ t.depth + added := by
  rw [Insertion.peak, ← hcode] at hpeak
  have hle : ∀ (done : List (Instruction Handle)) {rest : List (Instruction Handle)}
      {d after : Nat},
      block.map (·.2) = done ++ rest → depthAfter d rest = some after →
      d ≤ after + added := by
    intro done rest d after hsplit hdepth
    rw [hsplit] at hbalanced hpeak
    obtain ⟨k, hk, rfl⟩ := exists_depth_of_balanced hbalanced hdepth
    have hbound := Insertion.depthAfter_le_peakFrom hpeak (Nat.le_refl 0) hk
    omega
  cases ha with
  | here hin => simp [hnew] at hin
  | @within done rest h j depth ahead hblock hdepth =>
      obtain ⟨d, hrest, hj, -⟩ := step_within returnsValue hs hblock hdepth
      obtain ⟨rfl, rfl⟩ := hi.unique hj
      refine ⟨hle (done.map (·.2)) ?_ hdepth, hle (done.map (·.2) ++ [i]) ?_ hrest⟩
      · simp [hblock]
      · simp [hblock]

/-! ## §3  The greatest depth -/

/-- A balanced block raises the greatest depth by no more than it needs, and
does not lower it. -/
theorem isPeak_of_splice (hs : Splice b w anchor block) (hb : b.IsLinked)
    (hcons : b.Consistent returnsValue) {inserted : Insertion} {added : Nat}
    (hcode : block.map (·.2) = inserted.instructions)
    (hpeak : inserted.peak = .ok added)
    (hbalanced : depthAfter 0 (block.map (·.2)) = some 0) {old new : Nat}
    (hold : b.IsPeak returnsValue old) (hnew : w.IsPeak returnsValue new) :
    old ≤ new ∧ new ≤ old + added := by
  -- a greatest depth is compared with a number by asking whether all states
  -- stay within that number
  rw [← hold.staysWithin_iff, ← hnew.staysWithin_iff]
  constructor
  · intro s i after hreach hi
    have hin := contains_of_get? hi.1
    exact hnew.bounds ((reachable_iff_of_splice hs hb hbalanced hin).mpr hreach)
      ((performs_old hs hin).mpr hi)
  · intro s i after hreach hi
    obtain ⟨t, ht, ha⟩ := exists_reachable hs hb hbalanced hreach
    obtain ⟨j, ahead, hj⟩ := hcons.performs ht
    have hbefore := (hold.bounds ht hj).1
    by_cases hin : b.instructions.contains s.handle = true
    · obtain rfl := ha.eq_of_old hs hin
      have hbounds := hold.bounds ht ((performs_old hs hin).mp hi)
      omega
    · have hbounds := ha.depth_le hs hcode hpeak hbalanced (by simpa using hin) hi
      omega

end

/-! ## §4  Insertions -/

/-- Well-formed code that neither branches nor ends the flow is plain. -/
theorem Instruction.isPlain_of_isWellFormed {ρ : Type} {i : Instruction ρ}
    (hwell : i.isWellFormed = true) (hbranch : i.op.isBranch = false)
    (hfalls : i.op.isTerminator = false) : i.IsPlain := by
  have hshape : i.op.shape = i.operand.shape := by simpa [isWellFormed] using hwell
  refine ⟨hfalls, ?_, hshape⟩
  rw [Opcode.isBranch, hshape] at hbranch
  rw [targets]
  cases hoperand : i.operand with
  | target t => simp [hoperand, Operand.shape] at hbranch
  | switch ts => simp [hoperand, Operand.shape] at hbranch
  | _ => rfl

/-- What is found for two greatest depths, cut off at sixteen bits, is as far
apart as they are or less. -/
theorem Body.requiredStack_le_addStack {b w : Body} {returnsValue : Bool}
    {n n' added : Nat} {old new : UInt16} (hn : b.peakDepth returnsValue = .ok n)
    (hn' : w.peakDepth returnsValue = .ok n') (hle : n ≤ n' ∧ n' ≤ n + added)
    (hold : b.requiredStack returnsValue = .ok old)
    (hnew : w.requiredStack returnsValue = .ok new) :
    old ≤ new ∧ ∀ declared, old ≤ declared → new ≤ addStack declared added := by
  have holdn := toNat_requiredStack hn hold
  have hnewn := toNat_requiredStack hn' hnew
  refine ⟨UInt16.le_iff_toNat_le.mpr (by omega), ?_⟩
  intro declared hdeclared
  have hle' := UInt16.le_iff_toNat_le.mp hdeclared
  rw [UInt16.le_iff_toNat_le, toNat_addStack]
  omega

/-- A verified body takes every balanced insertion of well-formed code that
neither branches nor ends the flow, and whose slots are there, before any of its
instructions, and is verified with it. Control reaches the old instructions as
before, and the stack that the body needs grows by at most what the insertion
needs; so widening the declared stack by as much is enough, too. -/
theorem MethodDef.insertBefore_keeps_verified (m : MethodDef Body)
    (b : Body) (anchor : Handle) (s : Insertion)
    (hbody : m.body? = some b) (hverify : b.verify m.returnsValue = .ok ())
    (hin : b.instructions.contains anchor = true)
    (hcode : ∀ i ∈ s.instructions,
      i.isWellFormed = true ∧ i.op.isBranch = false ∧ i.op.isTerminator = false)
    (hbalanced : depthAfter 0 s.instructions = some 0)
    (hslots : ∀ i ∈ s.instructions, ∀ n, i.operand = .local n →
      n.toNat < b.locals.size + s.newLocals.length)
    (hlocals : b.locals.size + s.newLocals.length ≤ Body.maxLocals)
    (hroom : b.instructions.size + s.instructions.length ≤ capacity) :
    ∃ w, m.insertBefore anchor s = (.ok (), m.withBody (some w)) ∧
      w.verify m.returnsValue = .ok () ∧
      (∀ t, b.instructions.contains t.handle = true →
        (w.Reachable m.returnsValue t ↔ b.Reachable m.returnsValue t)) ∧
      ∃ added old new, s.peak = .ok added ∧ b.requiredStack m.returnsValue = .ok old ∧
        w.requiredStack m.returnsValue = .ok new ∧ old ≤ new ∧
        new ≤ Body.addStack old added ∧ new ≤ Body.addStack b.maxStack added := by
  have hplain : ∀ i ∈ s.instructions, i.IsPlain := by
    intro i hi
    obtain ⟨hwell, hbranch, hfalls⟩ := hcode i hi
    exact Instruction.isPlain_of_isWellFormed hwell hbranch hfalls
  obtain ⟨hwell, old, hold, hdeclared⟩ := Body.verify_eq_ok_iff.mp hverify
  obtain ⟨added, hadded⟩ := Insertion.exists_peak hplain
  obtain ⟨p, w, hp, hok, hw⟩ :=
    (insertBefore_of_fits hbody hin hlocals (by omega)).2 added hadded
  obtain ⟨block, hsplice, hblock⟩ := hw.exists_splice hp hplain
  have hzero : depthAfter 0 (block.map (·.2)) = some 0 := hblock ▸ hbalanced
  have hverified : w.verify m.returnsValue = .ok () := by
    have hsize : w.locals.size = b.locals.size + s.newLocals.length := by
      simp [hw.locals]
    refine (Splices.cons hsplice (.nil w)).verify hverify ?_ (by omega) ?_ hw.covers
    · intro x hx
      obtain rfl := List.mem_singleton.mp hx
      exact hzero
    · intro x hx i hi
      obtain rfl := List.mem_singleton.mp hx
      rw [hsize]
      exact hslots i (hblock ▸ hi)
  obtain ⟨-, new, hnew, -⟩ := Body.verify_eq_ok_iff.mp hverified
  have hcons : b.Consistent m.returnsValue :=
    Body.consistent_iff_requiredStack.mpr ⟨old, hold⟩
  have hcons' : w.Consistent m.returnsValue :=
    Body.consistent_iff_requiredStack.mpr ⟨new, hnew⟩
  -- the depths themselves have no bound; what is declared and found of them
  -- ends at sixteen bits
  obtain ⟨n, hn⟩ := hcons.exists_peakDepth
  obtain ⟨n', hn'⟩ := hcons'.exists_peakDepth
  have hpeaks := isPeak_of_splice hsplice hwell.isLinked hcons hblock hadded hzero
    (Body.peakDepth_eq_ok_iff.mp hn).2 (Body.peakDepth_eq_ok_iff.mp hn').2
  obtain ⟨hgrows, hcovered⟩ := Body.requiredStack_le_addStack hn hn' hpeaks hold hnew
  refine ⟨w, hok, hverified, ?_, added, old, new, hadded, hold, hnew, hgrows,
    hcovered old (UInt16.le_refl old), hcovered b.maxStack hdeclared⟩
  intro t ht
  exact reachable_iff_of_splice hsplice hwell.isLinked hzero ht

/-- A value is pushed and dropped before the first test of a method that waits. -/
theorem insertBefore_keeps_verified_waiting :
    ∃ w, waitingMethod.insertBefore ⟨1, 0⟩
        ⟨[⟨.ldnull, .none⟩, ⟨.pop, .none⟩], []⟩ =
        (.ok (), waitingMethod.withBody (some w)) ∧
      w.verify false = .ok () := by
  obtain ⟨w, hok, hverified, -⟩ := waitingMethod.insertBefore_keeps_verified
    Body.waiting ⟨1, 0⟩ ⟨[⟨.ldnull, .none⟩, ⟨.pop, .none⟩], []⟩ rfl
    Body.verify_waiting rfl (by decide) rfl (by simp) (by decide) (by decide)
  exact ⟨w, hok, hverified⟩

end Instrumentation
