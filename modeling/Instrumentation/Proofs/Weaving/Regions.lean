import Instrumentation.Proofs.Weaving.ExitCalls
import Instrumentation.Proofs.Weaving.Placement
import Mathlib.Data.List.NodupEquivFin

/-!
# The regions of an instrumented method

A handler protects a stretch of the program, and the block that runs for it is
another one. Each is told by the instruction that it starts with and by the one
just after it. Insertions keep these instructions in their order, so every old
instruction stays in the regions that it was in. Code put before an instruction
goes where that instruction is, but for two kinds of region: one that starts at
the instruction is only entered behind the code, and one that ends just before
the instruction takes the code in.

No region can start before the entry call, which therefore is in none. No exit
comes just after a region, so an exit call is in the regions of its return, but
for those that start with the return.

Sections: §1 regions · §2 old instructions · §3 new instructions · §4
instrumented methods.
-/

namespace Instrumentation

open InstructionList

/-! ## §1  Regions -/

/-- A stretch of the program from one instruction on to just before another one,
or to the end. -/
structure Region where
  start : Handle
  stop? : Option Handle
deriving DecidableEq

def ExceptionHandler.regions (x : ExceptionHandler Handle) : List Region :=
  [⟨x.tryStart, x.tryEnd?⟩, ⟨x.handlerStart, x.handlerEnd?⟩]

/-- Whether an instruction is in a region, by its position in program order. -/
def Body.liesIn (b : Body) (r : Region) (h : Handle) : Bool :=
  (b.instructions.position? h).any fun p =>
    (b.instructions.position? r.start).any (· ≤ p) &&
      r.stop?.all fun e => (b.instructions.position? e).any (p < ·)

structure Region.IsLive (b : Body) (r : Region) : Prop where
  start : b.instructions.contains r.start = true
  ends : ∀ e ∈ r.stop?, b.instructions.contains e = true

namespace ExceptionHandler

variable {b : Body} {x : ExceptionHandler Handle} {r : Region}

theorem start_mem_marks (hr : r ∈ x.regions) : r.start ∈ x.marks := by
  simp only [regions, List.mem_cons, List.not_mem_nil, or_false] at hr
  rcases hr with rfl | rfl
  · simp [marks]
  · simp [marks]

theorem end_mem_ends (hr : r ∈ x.regions) {e : Handle} (he : e ∈ r.stop?) :
    e ∈ x.ends := by
  simp only [regions, List.mem_cons, List.not_mem_nil, or_false] at hr
  rcases hr with rfl | rfl
  · exact List.mem_append_left _ (Option.mem_toList.mpr he)
  · exact List.mem_append_right _ (Option.mem_toList.mpr he)

theorem isLive_region (hx : ∀ h ∈ x.marks, b.instructions.contains h = true)
    (hr : r ∈ x.regions) : r.IsLive b :=
  ⟨hx _ (start_mem_marks hr), fun _ he =>
    hx _ (mem_marks_of_ends (end_mem_ends hr he))⟩

end ExceptionHandler

theorem Body.liesIn_iff {b : Body} {r : Region} {h : Handle} {p s : Nat}
    (hp : b.instructions.position? h = some p)
    (hs : b.instructions.position? r.start = some s) :
    b.liesIn r h = true ↔
      s ≤ p ∧ ∀ e ∈ r.stop?, ∃ q, b.instructions.position? e = some q ∧ p < q := by
  rw [liesIn, hp, hs]
  cases r.stop? with
  | none => simp
  | some e => simp [Option.any_eq_true]

/-! ## §2  Old instructions -/

section

variable {b w : Body} {r : Region} {h : Handle}

/-- Splices leave the old instructions in their order. -/
theorem Splices.sublist_handles {blocks : List Placed} (hs : Splices b blocks w) :
    b.instructions.handles.Sublist w.instructions.handles := by
  induction hs with
  | nil => exact .refl _
  | cons hsplice _ ih =>
      obtain ⟨front, back, hb, hw⟩ := hsplice.exists_handles
      refine .trans ?_ ih
      rw [hb, hw]
      exact List.Sublist.append_left (List.sublist_append_right _ _) front

/-- Where all old instructions are still there in their order, an old
instruction is in the same regions as before. -/
theorem Body.liesIn_eq_of_sublist
    (hsub : b.instructions.handles.Sublist w.instructions.handles) (hr : r.IsLive b)
    (hin : b.instructions.contains h = true) : w.liesIn r h = b.liesIn r h := by
  obtain ⟨f, hf⟩ := List.sublist_iff_exists_orderEmbedding_getElem?_eq.mp hsub
  have hmoved : ∀ {k n}, b.instructions.position? k = some n →
      w.instructions.position? k = some (f n) := by
    intro k n hk
    rw [position?_eq_some_iff] at hk ⊢
    rw [← hf, hk]
  obtain ⟨p, hp⟩ := exists_position? hin
  obtain ⟨s, hs⟩ := exists_position? hr.start
  rw [Bool.eq_iff_iff, liesIn_iff (hmoved hp) (hmoved hs),
    liesIn_iff hp hs, f.le_iff_le]
  refine and_congr_right fun _ => forall₂_congr fun e he => ?_
  obtain ⟨q, hq⟩ := exists_position? (hr.ends e he)
  simp [hq, hmoved hq]

end

/-! ## §3  New instructions -/

section

variable {l : InstructionList} {block front back : List Handle}
  {anchor h k : Handle} {n p : Nat}

theorem position?_lt_iff (hh : l.position? h = some p) (hk : l.position? k = some n) :
    p < n ↔ p ≤ n ∧ h ≠ k := by
  rw [Nat.lt_iff_le_and_ne]
  refine and_congr_right fun _ => not_congr ⟨?_, ?_⟩
  · rintro rfl
    rw [position?_eq_some_iff] at hh hk
    exact Option.some.inj (hh.symm.trans hk)
  · rintro rfl
    exact Option.some.inj (hh.symm.trans hk)

theorem getElem?_block (hn : n < block.length) :
    (front ++ (block ++ back))[front.length + n]? = block[n]? := by
  rw [List.getElem?_append_right (Nat.le_add_right _ _), Nat.add_sub_cancel_left,
    List.getElem?_append_left hn]

/-- An instruction that is not of a block stands before one of the block if it
stands before the instruction just behind. -/
theorem exists_positions_of_block (hplace : block ++ [anchor] <:+: l.handles)
    (hh : h ∈ block) :
    ∃ p q, l.position? h = some p ∧ l.position? anchor = some q ∧
      ∀ {k n}, l.position? k = some n → k ∉ block → (n ≤ p ↔ n < q) := by
  obtain ⟨front, back, hsplit⟩ := hplace
  rw [List.append_assoc, List.append_assoc] at hsplit
  obtain ⟨i, hi⟩ := List.mem_iff_getElem?.mp hh
  have hlt : i < block.length := (List.getElem?_eq_some_iff.mp hi).1
  refine ⟨front.length + i, front.length + block.length, ?_, ?_, ?_⟩
  · rw [position?_eq_some_iff, ← hsplit, getElem?_block hlt, hi]
  · rw [position?_eq_some_iff, ← hsplit, ← List.append_assoc]
    simp
  · intro k n hk hnot
    constructor
    · intro hle
      omega
    · intro hbefore
      by_contra hafter
      -- what stands between the two is of the block
      obtain ⟨d, rfl⟩ := Nat.exists_eq_add_of_le (show front.length ≤ n by omega)
      rw [position?_eq_some_iff, ← hsplit, getElem?_block (by omega)] at hk
      exact hnot (List.mem_of_getElem? hk)

end

section

variable {b w : Body} {r : Region} {block : List Handle} {anchor h : Handle}

/-- Code before an instruction that is not the end of a region lies in the
region if the instruction does and is not its start. -/
theorem Body.liesIn_block_iff (hplace : block ++ [anchor] <:+: w.instructions.handles)
    (hnew : ∀ k ∈ block, b.instructions.contains k = false) (hr : r.IsLive b)
    (hold : ∀ {k}, b.instructions.contains k = true →
      w.instructions.contains k = true) (hend : anchor ∉ r.stop?) (hh : h ∈ block) :
    w.liesIn r h = true ↔ w.liesIn r anchor = true ∧ r.start ≠ anchor := by
  obtain ⟨p, q, hp, hq, haround⟩ := exists_positions_of_block hplace hh
  have hnot : ∀ {k}, b.instructions.contains k = true → k ∉ block := by
    intro k hk hmem
    simp [hnew k hmem] at hk
  obtain ⟨s, hs⟩ := exists_position? (hold hr.start)
  have hends : (∀ e ∈ r.stop?, ∃ n, w.instructions.position? e = some n ∧ p < n) ↔
      ∀ e ∈ r.stop?, ∃ n, w.instructions.position? e = some n ∧ q < n := by
    refine forall₂_congr fun e he => exists_congr fun n =>
      and_congr_right fun hn => ?_
    have hne : anchor ≠ e := by
      rintro rfl
      exact hend he
    rw [position?_lt_iff hq hn, ← Nat.not_le,
      haround hn (hnot (hr.ends e he)), Nat.not_lt]
    exact (and_iff_left hne).symm
  rw [liesIn_iff hp hs, liesIn_iff hq hs, haround hs (hnot hr.start),
    position?_lt_iff hs hq, hends, and_right_comm]

/-- No region that starts at an old instruction reaches back to the front of the
body. -/
theorem Body.liesIn_front (hfront : block <+: w.instructions.handles)
    (hstart : r.start ∉ block) (hh : h ∈ block) : w.liesIn r h = false := by
  obtain ⟨back, hsplit⟩ := hfront
  obtain ⟨p, hp⟩ := List.mem_iff_getElem?.mp hh
  have hlt : p < block.length := (List.getElem?_eq_some_iff.mp hp).1
  have hposition : w.instructions.position? h = some p := by
    rw [position?_eq_some_iff, ← hsplit, List.getElem?_append_left hlt, hp]
  rw [Bool.eq_false_iff]
  intro hin
  obtain ⟨s, hs, hle⟩ : ∃ s, w.instructions.position? r.start = some s ∧ s ≤ p := by
    simp only [liesIn, hposition, Option.any_some, Bool.and_eq_true] at hin
    simpa [Option.any_eq_true] using hin.1
  rw [position?_eq_some_iff, ← hsplit, List.getElem?_append_left (by omega)] at hs
  exact hstart (List.mem_of_getElem? hs)

end

/-! ## §4  Instrumented methods -/

namespace Plan.Suits

variable {p : Plan} {m : MethodDef Body} {b w : Body}
  {logger : FieldRef} {callable : MethodRef} {exit : ExitLogging}
  {entry : List (Handle × Instruction Handle)} {exits : List Placed}
  {x : ExceptionHandler Handle} {r : Region} {h : Handle}

theorem liesIn_entry (hp : p.Suits m b logger callable exit)
    (ha : p.Applied b w entry exits) (hr : r.IsLive b) (hh : h ∈ entry.map (·.1)) :
    w.liesIn r h = false := by
  refine Body.liesIn_front (hp.entry_prefix ha) ?_ hh
  intro hmem
  have hnew := ha.splices.not_contains_of_mem List.mem_cons_self hmem
  rw [hr.start] at hnew
  simp at hnew

theorem liesIn_exit_iff (hp : p.Suits m b logger callable exit)
    (ha : p.Applied b w entry exits) (hx : x ∈ b.handlers) (hregion : r ∈ x.regions)
    (hr : r.IsLive b) {block : Placed} (hblock : block ∈ exits)
    (hh : h ∈ block.2.map (·.1)) :
    w.liesIn r h = true ↔ w.liesIn r block.1 = true ∧ r.start ≠ block.1 := by
  have hnew : ∀ k ∈ block.2.map (·.1), b.instructions.contains k = false :=
    fun _ => ha.splices.not_contains_of_mem (List.mem_cons_of_mem _ hblock)
  refine Body.liesIn_block_iff (hp.exit_place ha block hblock) hnew hr
    ha.splices.contains_old ?_ hh
  -- the planner leaves out the returns that end a region
  intro hend
  obtain ⟨step, hstep, hsite, -⟩ := exists_step_of_block ha.exitCodes hblock
  have hexit : block.1 ∈ b.exits := hsite ▸ (hp.exit_of_mem hstep).1
  have hafter : block.1 ∈ b.afterRegions :=
    List.mem_flatMap.mpr ⟨x, hx, ExceptionHandler.end_mem_ends hregion hend⟩
  simpa [hafter] using (List.mem_filter.mp hexit).2

end Plan.Suits

/-- Instrumenting keeps the layout of the exception handlers. A plan for a
method whose handlers name instructions of it can be applied if there is room;
every old instruction is then in the same regions as before, and the entry call,
which comes first, is in none. -/
theorem MethodDef.apply_keeps_regions (m : MethodDef Body) (b : Body)
    (logger : FieldRef) (callable : MethodRef) (exit : ExitLogging) (p : Plan)
    (hbody : m.body? = some b)
    (hlive : ∀ x ∈ b.handlers, ∀ h ∈ x.marks, b.instructions.contains h = true)
    (hplan : m.plan logger callable exit = .ok p) :
    (b.instructions.size + p.length ≤ capacity →
      ∃ m', m.apply p = (.ok p.exits.length, m')) ∧
    ∀ n m', m.apply p = (.ok n, m') →
      ∃ w, m'.body? = some w ∧ w.handlers = b.handlers ∧
        (∀ x ∈ b.handlers, ∀ r ∈ x.regions, ∀ h, b.instructions.contains h = true →
          w.liesIn r h = b.liesIn r h) ∧
        ∃ entry : List Handle, entry <+: w.instructions.handles ∧
          entry.map w.instructions.get? = p.entry.2.instructions.map some ∧
          (∀ h ∈ entry, b.instructions.contains h = false) ∧
          ∀ x ∈ b.handlers, ∀ r ∈ x.regions, ∀ h ∈ entry, w.liesIn r h = false := by
  obtain ⟨b', hp⟩ := plan_eq_ok hplan
  obtain rfl : b = b' := Option.some.inj (hbody.symm.trans hp.body)
  refine ⟨hp.apply_ok, ?_⟩
  intro n m' hok
  obtain ⟨-, w, entry, exits, rfl, ha, -, -⟩ := hp.applied hok
  have hregion : ∀ x ∈ b.handlers, ∀ r ∈ x.regions, r.IsLive b :=
    fun x hx _ => ExceptionHandler.isLive_region (hlive x hx)
  refine ⟨w, rfl, ha.splices.handlers, ?_, entry.map (·.1),
    hp.entry_prefix ha, ?_, ?_, ?_⟩
  · exact fun x hx r hr h hin => Body.liesIn_eq_of_sublist ha.splices.sublist_handles
      (hregion x hx r hr) hin
  · rw [ha.splices.map_get? List.mem_cons_self, ha.entryCode]
  · exact fun _ => ha.splices.not_contains_of_mem List.mem_cons_self
  · exact fun x hx r hr h hh => hp.liesIn_entry ha (hregion x hx r hr) hh

theorem apply_keeps_regions_guarded :
    ∃ m' w, guardedMethod.apply guardedPlan = (.ok 1, m') ∧
      m'.body? = some w ∧ w.liesIn ⟨⟨1, 0⟩, some ⟨1, 1⟩⟩ ⟨1, 0⟩ = true ∧
      ∃ entry : List Handle, entry.length = 8 ∧ entry <+: w.instructions.handles ∧
        ∀ h ∈ entry, w.liesIn ⟨⟨1, 0⟩, some ⟨1, 1⟩⟩ h = false := by
  have hlive : ∀ x ∈ Body.guarded.handlers, ∀ h ∈ x.marks,
      Body.guarded.instructions.contains h = true := by
    decide
  obtain ⟨happly, hkeeps⟩ :=
    guardedMethod.apply_keeps_regions Body.guarded sampleLogger logInformation
      (.enabled arrayEmpty "Method exit") guardedPlan rfl hlive rfl
  obtain ⟨m', hok⟩ := happly (by decide)
  obtain ⟨w, hw, -, hold, entry, hfirst, hcode, -, hnone⟩ := hkeeps 1 m' hok
  refine ⟨m', w, hok, hw, ?_, entry, ?_, hfirst,
    hnone _ List.mem_cons_self _ List.mem_cons_self⟩
  · rw [hold _ List.mem_cons_self _ List.mem_cons_self _ rfl]
    rfl
  · simpa [guardedPlan, entryCode, guardedMethod] using congrArg List.length hcode

/-- Exit calls are protected like their returns, but for the regions that start
there. A plan for a method whose handlers name instructions of it can be applied
if there is room; then the exit call of every listed return stands immediately
before it, and each instruction of the call is in exactly those regions of the
return that do not start with the return. -/
theorem MethodDef.exit_call_regions (m : MethodDef Body) (b : Body)
    (logger : FieldRef) (callable emptyArray : MethodRef)
    (message : String) (p : Plan) (hbody : m.body? = some b)
    (hlive : ∀ x ∈ b.handlers, ∀ h ∈ x.marks, b.instructions.contains h = true)
    (hplan : m.plan logger callable (.enabled emptyArray message) = .ok p) :
    (b.instructions.size + p.length ≤ capacity →
      ∃ m', m.apply p = (.ok p.exits.length, m')) ∧
    ∀ n m', m.apply p = (.ok n, m') →
      ∃ w, m'.body? = some w ∧ w.handlers = b.handlers ∧
        ∀ step ∈ p.exits, ∃ call : List Handle,
          call.map w.instructions.get? =
            (exitCall logger callable emptyArray message).instructions.map some ∧
          call ++ [step.1] <:+: w.instructions.handles ∧
          (∀ h ∈ call, b.instructions.contains h = false) ∧
          ∀ x ∈ b.handlers, ∀ r ∈ x.regions, ∀ h ∈ call,
            (w.liesIn r h = true ↔ w.liesIn r step.1 = true ∧ r.start ≠ step.1) := by
  obtain ⟨b', hp⟩ := plan_eq_ok hplan
  obtain rfl : b = b' := Option.some.inj (hbody.symm.trans hp.body)
  refine ⟨hp.apply_ok, ?_⟩
  intro n m' hok
  obtain ⟨-, w, entry, exits, rfl, ha, -, -⟩ := hp.applied hok
  refine ⟨w, rfl, ha.splices.handlers, ?_⟩
  intro step hstep
  obtain ⟨block, hblock, hsite, hcode⟩ := exists_block_of_step ha.exitCodes hstep
  have hin := List.mem_cons_of_mem (p.entry.1, entry) hblock
  obtain ⟨-, emptyArray', message', hexit, hcall⟩ := hp.exit_of_mem hstep
  obtain ⟨rfl, rfl⟩ := ExitLogging.enabled.inj hexit
  rw [← hsite]
  refine ⟨block.2.map (·.1), ?_, hp.exit_place ha block hblock, ?_, ?_⟩
  · rw [ha.splices.map_get? hin, hcode, hcall]
  · exact fun _ => ha.splices.not_contains_of_mem hin
  · exact fun x hx r hr h hh =>
      hp.liesIn_exit_iff ha hx hr (ExceptionHandler.isLive_region (hlive x hx) hr)
        hblock hh

/-- A body that returns from inside two protected regions, of which the inner
one starts with the return. -/
def Body.sheltered : Body :=
  { Body.ofInstructions
      (.ofList 1 [⟨.nop, .none⟩, ⟨.ret, .none⟩, ⟨.endfinally, .none⟩,
        ⟨.endfinally, .none⟩]) with
    handlers := [⟨.finallyBlock, ⟨1, 1⟩, some ⟨1, 2⟩, ⟨1, 2⟩, some ⟨1, 3⟩⟩,
      ⟨.finallyBlock, ⟨1, 0⟩, some ⟨1, 3⟩, ⟨1, 3⟩, none⟩] }

def shelteredMethod : MethodDef Body :=
  { name := "Shelter", visibility := .publicAccess, isStatic := false,
    genericParams := []
    params := [], returnType := .void, body? := some Body.sheltered }

def shelteredPlan : Plan :=
  ⟨(⟨1, 0⟩, ⟨entryCode shelteredMethod sampleLogger logInformation 0, [.objects]⟩),
    [(⟨1, 1⟩, exitCall sampleLogger logInformation arrayEmpty "Method exit")]⟩

theorem Body.sheltered_live :
    ∀ x ∈ sheltered.handlers, ∀ h ∈ x.marks,
      sheltered.instructions.contains h = true := by
  decide

theorem shelteredMethod_plan :
    shelteredMethod.plan sampleLogger logInformation
      (.enabled arrayEmpty "Method exit") = .ok shelteredPlan := rfl

theorem exists_applied_sheltered :
    ∃ w entry exits,
      shelteredMethod.apply shelteredPlan =
        (.ok 1, shelteredMethod.withBody (some w)) ∧
      shelteredPlan.Applied Body.sheltered w entry exits := by
  have hp := MethodDef.suits_of_plan (b := .sheltered) rfl shelteredMethod_plan
  obtain ⟨m', hok⟩ := hp.apply_ok (by decide)
  obtain ⟨-, w, entry, exits, rfl, ha, -, -⟩ := hp.applied hok
  exact ⟨w, entry, exits, hok, ha⟩

theorem exit_call_regions_sheltered :
    ∃ m' w, shelteredMethod.apply shelteredPlan = (.ok 1, m') ∧
      m'.body? = some w ∧ ∃ call : List Handle, call.length = 5 ∧
        call ++ [⟨1, 1⟩] <:+: w.instructions.handles ∧
        ∀ h ∈ call, w.liesIn ⟨⟨1, 0⟩, some ⟨1, 3⟩⟩ h = true ∧
          w.liesIn ⟨⟨1, 1⟩, some ⟨1, 2⟩⟩ h = false := by
  obtain ⟨w, entry, exits, hok, ha⟩ := exists_applied_sheltered
  obtain ⟨-, hregions⟩ := shelteredMethod.exit_call_regions Body.sheltered
    sampleLogger logInformation arrayEmpty "Method exit" shelteredPlan rfl
    Body.sheltered_live shelteredMethod_plan
  obtain ⟨w', hw, -, hall⟩ := hregions 1 _ hok
  obtain rfl : w = w' := Option.some.inj hw
  obtain ⟨call, hcode, hplace, -, hcall⟩ := hall _ List.mem_cons_self
  refine ⟨_, w, hok, rfl, call, by simpa [exitCall] using congrArg List.length hcode,
    hplace, ?_⟩
  intro h hh
  constructor
  · have hr : Region.IsLive Body.sheltered ⟨⟨1, 0⟩, some ⟨1, 3⟩⟩ := ⟨rfl, by decide⟩
    rw [hcall _ (List.mem_cons_of_mem _ List.mem_cons_self) _ List.mem_cons_self h hh]
    exact ⟨Body.liesIn_eq_of_sublist ha.splices.sublist_handles hr rfl, by decide⟩
  · rw [Bool.eq_false_iff, ne_eq,
      hcall _ List.mem_cons_self _ List.mem_cons_self h hh]
    simp

/-- Not every exit call is in all regions of its return: one that starts with
the return does not take the call in. -/
theorem exit_call_outside_region :
    ¬ ∀ (m : MethodDef Body) (b : Body) (logger : FieldRef)
        (callable emptyArray : MethodRef) (message : String) (p : Plan) (n : Nat)
        (m' : MethodDef Body) (w : Body),
      m.body? = some b →
      (∀ x ∈ b.handlers, ∀ h ∈ x.marks, b.instructions.contains h = true) →
      m.plan logger callable (.enabled emptyArray message) = .ok p →
      m.apply p = (.ok n, m') → m'.body? = some w →
      ∀ step ∈ p.exits, ∃ call : List Handle,
        call.map w.instructions.get? =
          (exitCall logger callable emptyArray message).instructions.map some ∧
        call ++ [step.1] <:+: w.instructions.handles ∧
        (∀ h ∈ call, b.instructions.contains h = false) ∧
        ∀ x ∈ b.handlers, ∀ r ∈ x.regions, ∀ h ∈ call,
          w.liesIn r h = w.liesIn r step.1 := by
  intro halways
  obtain ⟨w, entry, exits, hok, ha⟩ := exists_applied_sheltered
  obtain ⟨call, hcode, hplace, hnew, hcall⟩ := halways _ _ _ _ _ _ _ _ _ w rfl
    Body.sheltered_live shelteredMethod_plan hok rfl _ List.mem_cons_self
  obtain ⟨h, hh⟩ : ∃ h, h ∈ call := by
    refine List.exists_mem_of_ne_nil call ?_
    rintro rfl
    simp [exitCall] at hcode
  -- the return is in the inner protected region, as it was before, and so the
  -- call would have to be
  have hr : Region.IsLive Body.sheltered ⟨⟨1, 1⟩, some ⟨1, 2⟩⟩ := ⟨rfl, by decide⟩
  have hin : w.liesIn ⟨⟨1, 1⟩, some ⟨1, 2⟩⟩ ⟨1, 1⟩ = true :=
    Body.liesIn_eq_of_sublist ha.splices.sublist_handles hr rfl
  have hsame := hcall _ List.mem_cons_self _ List.mem_cons_self h hh
  have hout := (Body.liesIn_block_iff hplace hnew hr ha.splices.contains_old
    (by decide) hh).mp (hsame.trans hin)
  exact hout.2 rfl

end Instrumentation
