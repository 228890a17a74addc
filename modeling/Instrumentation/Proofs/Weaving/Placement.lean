import Instrumentation.Proofs.Weaving.ControlFlow

/-!
# The order of an instrumented method

Applying a plan is many insertions, each of them before an anchor that was fixed
beforehand. Since no anchor is one of the new instructions, the order in which
the insertions are made matters only where two of them have the same anchor; so
the new program order can be told at once: every old instruction, in the old
order, with the blocks that were put before it. Of these the entry call comes
first, even if the first instruction is a return and has an exit call of its
own.

Sections: §1 blocks before instructions · §2 exits · §3 instrumented methods.
-/

namespace Instrumentation

open InstructionList

/-! ## §1  Blocks before instructions -/

/-- What stands before an instruction when blocks have been put before their
anchors in turn. -/
def blocksBefore (blocks : List Placed) (h : Handle) :
    List (Handle × Instruction Handle) :=
  (blocks.filter (·.1 = h)).flatMap (·.2)

def withBlocks (blocks : List Placed) (es : List (Handle × Instruction Handle)) :
    List (Handle × Instruction Handle) :=
  es.flatMap fun e => blocksBefore blocks e.1 ++ [e]

section

variable {blocks : List Placed} {anchor h : Handle} {i : Instruction Handle}
  {block es front back : List (Handle × Instruction Handle)}

theorem blocksBefore_cons_self :
    blocksBefore ((h, block) :: blocks) h = block ++ blocksBefore blocks h := by
  simp [blocksBefore]

theorem blocksBefore_cons_of_ne (hne : anchor ≠ h) :
    blocksBefore ((anchor, block) :: blocks) h = blocksBefore blocks h := by
  simp [blocksBefore, hne]

theorem blocksBefore_eq_nil (hnone : ∀ x ∈ blocks, x.1 ≠ h) :
    blocksBefore blocks h = [] := by
  have hfilter : blocks.filter (·.1 = h) = [] := by
    rw [List.filter_eq_nil_iff]
    intro x hx
    simpa using hnone x hx
  rw [blocksBefore, hfilter, List.flatMap_nil]

theorem blocksBefore_eq_flatMap (hall : ∀ x ∈ blocks, x.1 = h) :
    blocksBefore blocks h = blocks.flatMap (·.2) := by
  rw [blocksBefore, List.filter_eq_self.mpr (by simpa using hall)]

theorem withBlocks_append :
    withBlocks blocks (front ++ back) =
      withBlocks blocks front ++ withBlocks blocks back :=
  List.flatMap_append

theorem withBlocks_entry {e : Handle × Instruction Handle} :
    withBlocks blocks (e :: es) =
      blocksBefore blocks e.1 ++ e :: withBlocks blocks es := by
  simp [withBlocks]

/-- Entries that no block has for its anchor stay as they are. -/
theorem withBlocks_eq_self (hnone : ∀ x ∈ blocks, x.1 ∉ es.map (·.1)) :
    withBlocks blocks es = es := by
  have heach : ∀ e ∈ es, blocksBefore blocks e.1 ++ [e] = [e] := by
    intro e he
    rw [blocksBefore_eq_nil fun x hx heq => hnone x hx (heq ▸ List.mem_map_of_mem he),
      List.nil_append]
  rw [withBlocks, List.flatMap_congr heach, List.flatMap_singleton']

theorem withBlocks_cons_of_notMem (hnot : anchor ∉ es.map (·.1)) :
    withBlocks ((anchor, block) :: blocks) es = withBlocks blocks es := by
  refine List.flatMap_congr ?_
  intro e he
  have hne : anchor ≠ e.1 := by
    rintro rfl
    exact hnot (List.mem_map_of_mem he)
  rw [blocksBefore_cons_of_ne hne]

/-- The first of several blocks goes before its anchor and before all other
blocks that are there. -/
theorem withBlocks_cons (hnodup : ((front ++ (anchor, i) :: back).map (·.1)).Nodup) :
    withBlocks ((anchor, block) :: blocks) (front ++ (anchor, i) :: back) =
      withBlocks blocks front ++ block ++
        withBlocks blocks ((anchor, i) :: back) := by
  rw [List.map_append, List.map_cons, List.nodup_middle, List.nodup_cons,
    List.mem_append, not_or] at hnodup
  obtain ⟨⟨hfront, hback⟩, -⟩ := hnodup
  rw [withBlocks_append, withBlocks_entry, withBlocks_entry, blocksBefore_cons_self,
    withBlocks_cons_of_notMem hfront, withBlocks_cons_of_notMem hback]
  simp

end

/-- Splices before old instructions put every block before its anchor and leave
the rest in order. -/
theorem Splices.entries {b v : Body} {blocks : List Placed} (hs : Splices b blocks v)
    (hold : ∀ x ∈ blocks, b.instructions.contains x.1 = true) :
    v.instructions.entries = withBlocks blocks b.instructions.entries := by
  -- by induction on the splices: no later anchor is in the block that the first
  -- one puts in
  induction hs with
  | nil => exact (withBlocks_eq_self (by simp)).symm
  | @cons b w v anchor block rest hsplice _ ih =>
      obtain ⟨hanchor, hrest⟩ := List.forall_mem_cons.mp hold
      have hblock : withBlocks rest block = block := by
        refine withBlocks_eq_self ?_
        intro x hx hmem
        obtain ⟨e, he, heq⟩ := List.mem_map.mp hmem
        have hin := hrest x hx
        rw [← heq, hsplice.new (i := e.2) he] at hin
        simp at hin
      obtain ⟨front, i, back, hb, hw⟩ := hsplice.placed
      have hnodup := b.instructions.nodup_entries_fst
      rw [hb] at hnodup
      rw [ih fun x hx => hsplice.contains_old (hrest x hx), hw, hb,
        withBlocks_cons hnodup, withBlocks_append, withBlocks_append, hblock]

/-! ## §2  Exits -/

/-- A return that is not the end of a protected region or of a handler. -/
def Body.IsExit (b : Body) (e : Handle × Instruction Handle) : Prop :=
  e.2.op.isReturn = true ∧
    ∀ x ∈ b.handlers, x.tryEnd? ≠ some e.1 ∧ x.handlerEnd? ≠ some e.1

instance (b : Body) : DecidablePred b.IsExit := fun e =>
  inferInstanceAs (Decidable (e.2.op.isReturn = true ∧
    ∀ x ∈ b.handlers, x.tryEnd? ≠ some e.1 ∧ x.handlerEnd? ≠ some e.1))

def exitCode (logger : FieldRef) (callable : MethodRef) :
    ExitLogging → List (Instruction Handle)
  | .enabled emptyArray message =>
      (exitCall logger callable emptyArray message).instructions
  | .disabled | .unavailable _ => []

def Body.exitCount (b : Body) : ExitLogging → Nat
  | .enabled _ _ => b.instructions.entries.countP (b.IsExit ·)
  | .disabled | .unavailable _ => 0

namespace Body

variable {b : Body}

theorem isExit_iff {e : Handle × Instruction Handle} :
    b.IsExit e ↔ e.2.op.isReturn = true ∧ e.1 ∉ b.afterRegions := by
  simp only [IsExit, afterRegions, ExceptionHandler.ends, List.mem_flatMap,
    List.mem_append, Option.mem_toList, not_exists, not_and, not_or]

theorem exits_eq (b : Body) :
    b.exits = (b.instructions.entries.filter (b.IsExit ·)).map (·.1) := by
  rw [exits, returns, List.filter_map, List.filter_filter]
  congr 1
  refine List.filter_congr ?_
  intro e _
  rw [Bool.eq_iff_iff, decide_eq_true_eq, isExit_iff]
  simp [and_comm]

theorem mem_exits_iff {e : Handle × Instruction Handle}
    (he : e ∈ b.instructions.entries) : e.1 ∈ b.exits ↔ b.IsExit e := by
  rw [exits_eq, List.mem_map]
  constructor
  · rintro ⟨e', he', heq⟩
    obtain ⟨hin, hexit⟩ := List.mem_filter.mp he'
    have hsame : e'.2 = e.2 := by
      have hget := mem_entries.mp hin
      rw [heq, mem_entries.mp (show (e.1, e.2) ∈ _ from he)] at hget
      exact (Option.some.inj hget).symm
    rw [← Prod.ext heq hsame]
    simpa using hexit
  · intro hexit
    exact ⟨e, List.mem_filter.mpr ⟨he, by simpa using hexit⟩, rfl⟩

end Body

/-! ## §3  Instrumented methods -/

section

variable {p : Plan} {m : MethodDef Body} {b w : Body}
  {logger : FieldRef} {callable : MethodRef} {exit : ExitLogging}
  {entry : List (Handle × Instruction Handle)} {exits : List Placed}

theorem Plan.Suits.length_exits (hp : p.Suits m b logger callable exit) :
    p.exits.length = b.exitCount exit := by
  rw [hp.exits]
  cases exit with
  | disabled => rfl
  | unavailable cause => rfl
  | enabled emptyArray message =>
      simp only [Body.exitCalls, Body.exitCount, List.length_map,
        Body.exits_eq, List.countP_eq_length_filter]

theorem exists_entries_of_first? {h : Handle}
    (hfirst : b.instructions.first? = some h) :
    ∃ i rest, b.instructions.entries = (h, i) :: rest := by
  rw [first?_eq_head?, ← entries_map_fst] at hfirst
  cases hentries : b.instructions.entries with
  | nil => simp [hentries] at hfirst
  | cons e rest =>
      obtain rfl : e.1 = h := by simpa [hentries] using hfirst
      exact ⟨e.2, rest, rfl⟩

/-- Before an exit stands one exit call, and before other instructions nothing. -/
theorem Plan.Suits.map_blocksBefore (hp : p.Suits m b logger callable exit)
    (ha : p.Applied b w entry exits) {e : Handle × Instruction Handle}
    (he : e ∈ b.instructions.entries) :
    (blocksBefore exits e.1).map (·.2) =
      if b.IsExit e then exitCode logger callable exit else [] := by
  have hmap : (blocksBefore exits e.1).map (·.2) =
      ((p.exits.filter (·.1 = e.1)).flatMap (·.2.instructions)) := by
    have hcodes :=
      congrArg (fun xs => (xs.filter (·.1 = e.1)).flatMap (·.2)) ha.exitCodes
    simp only [List.filter_map, List.flatMap_map, Function.comp_def] at hcodes
    rw [blocksBefore, List.map_flatMap, hcodes]
  rw [hmap, hp.exits]
  cases exit with
  | disabled => simp [Body.exitCalls, exitCode]
  | unavailable cause => simp [Body.exitCalls, exitCode]
  | enabled emptyArray message =>
      have hsites : b.exits.filter (· = e.1) = if b.IsExit e then [e.1] else [] := by
        rw [List.filter_eq, b.nodup_exits.count]
        simp only [Body.mem_exits_iff he]
        split <;> rfl
      simp only [Body.exitCalls, List.filter_map, List.flatMap_map, Function.comp_def]
      rw [hsites]
      split <;> simp [exitCode]

/-- A plan for a method can be applied to it if there is room, and then the
instructions of the new body are, in this order: the entry call, and every old
instruction under its old handle, with an exit call immediately before it if it
is an exit. The handlers are the old ones, and the slots those and one for an
array. -/
theorem MethodDef.apply_plan_entries (m : MethodDef Body) (b : Body)
    (logger : FieldRef) (callable : MethodRef) (exit : ExitLogging) (p : Plan)
    (hbody : m.body? = some b) (hplan : m.plan logger callable exit = .ok p)
    (hroom : b.instructions.size + p.length ≤ capacity) :
    ∃ w entry,
    ∃ before : Handle × Instruction Handle → List (Handle × Instruction Handle),
      m.apply p = (.ok (b.exitCount exit), m.withBody (some w)) ∧
      w.instructions.entries =
        entry ++ b.instructions.entries.flatMap (fun e => before e ++ [e]) ∧
      entry.map (·.2) = entryCode m logger callable (UInt16.ofNat b.locals.size) ∧
      (∀ e ∈ b.instructions.entries, (before e).map (·.2) =
        if b.IsExit e then exitCode logger callable exit else []) ∧
      (∀ h i, b.instructions.get? h = some i → w.instructions.get? h = some i) ∧
      w.handlers = b.handlers ∧ w.locals = b.locals.push .objects := by
  obtain ⟨b', hp⟩ := plan_eq_ok hplan
  obtain rfl : b = b' := Option.some.inj (hbody.symm.trans hp.body)
  obtain ⟨m', hok⟩ := hp.apply_ok hroom
  obtain ⟨-, w, entry, exits, rfl, ha, hlocals, -⟩ := hp.applied hok
  have hanchors :
      ∀ x ∈ (p.entry.1, entry) :: exits, b.instructions.contains x.1 = true :=
    ha.forall_anchor (P := fun h => b.instructions.contains h = true) hp.contains
  refine ⟨w, entry, fun e => blocksBefore exits e.1, ?_, ?_, ?_, ?_, ?_,
    ha.splices.handlers, hlocals⟩
  · rw [← hp.length_exits]
    exact hok
  · obtain ⟨i, rest, hentries⟩ := exists_entries_of_first? hp.first
    have hsplit : b.instructions.entries = [] ++ (p.entry.1, i) :: rest := hentries
    have hnodup := b.instructions.nodup_entries_fst
    rw [hsplit] at hnodup
    rw [ha.splices.entries hanchors, hsplit, withBlocks_cons hnodup]
    rfl
  · rw [ha.entryCode, hp.entry]
  · exact fun e he => hp.map_blocksBefore ha he
  · exact fun h i hi => ha.splices.get?_old hi

end

/-- A body that returns at once, or after a clean-up that ends just before a
return of its own. -/
def Body.guarded : Body :=
  { Body.ofInstructions (.ofList 1 [⟨.ret, .none⟩, ⟨.endfinally, .none⟩,
    ⟨.ret, .none⟩]) with
    handlers := [⟨.finallyBlock, ⟨1, 0⟩, some ⟨1, 1⟩, ⟨1, 1⟩, some ⟨1, 2⟩⟩] }

def guardedMethod : MethodDef Body :=
  { name := "Guard", visibility := .publicAccess, isStatic := false,
    genericParams := []
    params := [], returnType := .void, body? := some Body.guarded }

def guardedPlan : Plan :=
  ⟨(⟨1, 0⟩, ⟨entryCode guardedMethod sampleLogger logInformation 0, [.objects]⟩),
    [(⟨1, 0⟩, exitCall sampleLogger logInformation arrayEmpty "Method exit")]⟩

theorem apply_guardedPlan :
    ∃ w, guardedMethod.apply guardedPlan = (.ok 1, guardedMethod.withBody (some w)) ∧
      w.instructions.code =
        entryCode guardedMethod sampleLogger logInformation 0 ++
          (exitCall sampleLogger logInformation arrayEmpty "Method exit").instructions ++
          [⟨.ret, .none⟩, ⟨.endfinally, .none⟩, ⟨.ret, .none⟩] := by
  have hplan : guardedMethod.plan sampleLogger logInformation
      (.enabled arrayEmpty "Method exit") = .ok guardedPlan := rfl
  obtain ⟨w, entry, before, hok, hentries, hentry, hbefore, -⟩ :=
    guardedMethod.apply_plan_entries Body.guarded _ _ _ guardedPlan rfl
      hplan (by decide)
  have hold : Body.guarded.instructions.entries =
      [(⟨1, 0⟩, ⟨.ret, .none⟩), (⟨1, 1⟩, ⟨.endfinally, .none⟩),
        (⟨1, 2⟩, ⟨.ret, .none⟩)] := rfl
  simp only [hold, List.forall_mem_cons] at hbefore
  obtain ⟨hfirst, hsecond, hthird, -⟩ := hbefore
  rw [if_pos (by decide)] at hfirst
  rw [if_neg (by decide)] at hsecond hthird
  refine ⟨w, hok, ?_⟩
  have hslot : UInt16.ofNat Body.guarded.locals.size = 0 := rfl
  rw [← entries_map_snd, hentries, hold, List.map_append, hentry, hslot]
  simp [hfirst, hsecond, hthird, exitCode]

end Instrumentation
