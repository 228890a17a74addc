import Instrumentation.Proofs.Calls.FoundMethods
import Instrumentation.Proofs.Weaving.PassReport
import Instrumentation.Proofs.Weaving.RenamedPasses
import Mathlib.Tactic.Ring

/-!
# Passes on top of passes

Nothing keeps a pass from instrumenting what an earlier one has instrumented.
Each pass finds another first instruction, another number of slots and other
instructions around the returns, and yet the same exits: what has been put in is
no return, and which returns end a region is up to the handlers, which no pass
touches. So the entry calls pile up at the start, the latest first, and the exit
calls before every exit, the latest last; and as each pass takes the slot after
all slots there are, no two of them share one.

Sections: §1 padded bodies · §2 one more plan · §3 one more pass over a method ·
§4 types and modules · §5 passes.
-/

namespace Instrumentation

open InstructionList

/-! ## §1  Padded bodies -/

theorem Instruction.IsPlain.not_isReturn {ρ : Type} {i : Instruction ρ}
    (hi : i.IsPlain) : i.op.isReturn = false := by
  have hfalls := hi.falls
  cases hop : i.op <;> simp_all [Opcode.isReturn, Opcode.isTerminator]

namespace Body

variable {b w v : Body} {lead tail : List (Instruction Handle)}
  {e : Handle × Instruction Handle}

theorem not_isExit_of_isPlain (he : e.2.IsPlain) : ¬ b.IsExit e := by
  rintro ⟨hreturn, -⟩
  exact Bool.false_ne_true (he.not_isReturn.symm.trans hreturn)

/-- One body is another with some code at its start and some code before every
exit, neither of which branches or returns. -/
structure Padded (b w : Body) (lead tail : List (Instruction Handle)) : Prop where
  entries : ∃ front,
    ∃ before : Handle × Instruction Handle → List (Handle × Instruction Handle),
    w.instructions.entries =
      front ++ b.instructions.entries.flatMap (fun e => before e ++ [e]) ∧
    front.map (·.2) = lead ∧
    ∀ e ∈ b.instructions.entries,
      (before e).map (·.2) = if b.IsExit e then tail else []
  handlers : w.handlers = b.handlers
  plainLead : ∀ i ∈ lead, i.IsPlain
  plainTail : ∀ i ∈ tail, i.IsPlain

theorem padded_refl (b : Body) : b.Padded b [] [] := by
  refine ⟨⟨[], fun _ => [], ?_, rfl, by simp⟩, rfl, by simp, by simp⟩
  simp only [List.nil_append]
  exact (List.flatMap_singleton' _).symm

section

variable {before : Handle × Instruction Handle → List (Handle × Instruction Handle)}
  {p : Handle × Instruction Handle → Bool}

theorem countP_flatMap_before :
    ∀ {es : List (Handle × Instruction Handle)},
      (∀ e ∈ es, (before e).countP p = 0) →
      (es.flatMap fun e => before e ++ [e]).countP p = es.countP p
  | [], _ => rfl
  | e :: es, hbefore => by
      obtain ⟨he, hes⟩ := List.forall_mem_cons.mp hbefore
      rw [List.flatMap_cons, List.countP_append, List.countP_append,
        he, countP_flatMap_before hes, Nat.zero_add,
        ← List.countP_append, List.singleton_append]

theorem length_flatMap_before {k : Nat} :
    ∀ {es : List (Handle × Instruction Handle)},
      (∀ e ∈ es, (before e).length = if p e then k else 0) →
      (es.flatMap fun e => before e ++ [e]).length = es.length + es.countP p * k
  | [], _ => by simp
  | e :: es, hbefore => by
      obtain ⟨he, hes⟩ := List.forall_mem_cons.mp hbefore
      rw [List.flatMap_cons, List.length_append, List.length_append, he,
        length_flatMap_before hes, List.countP_cons, Nat.add_mul]
      cases p e <;> simp <;> omega

end

namespace Padded

theorem mem_entries_of_mem (hw : b.Padded w lead tail)
    (he : e ∈ b.instructions.entries) : e ∈ w.instructions.entries := by
  obtain ⟨front, before, hentries, -⟩ := hw.entries
  rw [hentries]
  exact List.mem_append_right _ (List.mem_flatMap.mpr ⟨e, he, by simp⟩)

theorem isExit_iff (hw : b.Padded w lead tail) : w.IsExit e ↔ b.IsExit e := by
  rw [IsExit, IsExit, hw.handlers]

theorem exists_first? (hw : b.Padded w lead tail)
    (hfirst : b.instructions.first?.isSome = true) :
    ∃ h, w.instructions.first? = some h := by
  obtain ⟨h, hh⟩ := Option.isSome_iff_exists.mp hfirst
  obtain ⟨i, rest, hentries⟩ := exists_entries_of_first? hh
  have hmem : (h, i) ∈ w.instructions.entries :=
    hw.mem_entries_of_mem (by simp [hentries])
  rw [first?_eq_head?, ← entries_map_fst]
  cases hes : w.instructions.entries with
  | nil => simp [hes] at hmem
  | cons x es => exact ⟨x.1, rfl⟩

theorem isPlain_of_mem_before (hw : b.Padded w lead tail)
    {before : List (Handle × Instruction Handle)}
    (hbefore : before.map (·.2) = if b.IsExit e then tail else [])
    {x : Handle × Instruction Handle} (hx : x ∈ before) : x.2.IsPlain := by
  have hmem : x.2 ∈ before.map (·.2) := List.mem_map_of_mem hx
  rw [hbefore] at hmem
  split at hmem
  · exact hw.plainTail _ hmem
  · exact absurd hmem List.not_mem_nil

/-- What has been put in has no exit in it. -/
theorem countP_isExit (hw : b.Padded w lead tail) :
    w.instructions.entries.countP (w.IsExit ·) =
      b.instructions.entries.countP (b.IsExit ·) := by
  obtain ⟨front, before, hentries, hfront, hbefore⟩ := hw.entries
  have hsame : (fun e => decide (w.IsExit e)) = fun e => decide (b.IsExit e) := by
    funext e
    exact decide_eq_decide.mpr hw.isExit_iff
  have hlead : front.countP (b.IsExit ·) = 0 := by
    rw [List.countP_eq_zero]
    intro e he
    have hplain : e.2.IsPlain := hw.plainLead _ (hfront ▸ List.mem_map_of_mem he)
    simpa using not_isExit_of_isPlain hplain
  have hbetween :
      ∀ e ∈ b.instructions.entries, (before e).countP (b.IsExit ·) = 0 := by
    intro e he
    rw [List.countP_eq_zero]
    intro x hx
    simpa using not_isExit_of_isPlain (hw.isPlain_of_mem_before (hbefore e he) hx)
  rw [hsame, hentries, List.countP_append, hlead, Nat.zero_add]
  exact countP_flatMap_before hbetween

theorem exitCount (hw : b.Padded w lead tail) (exit : ExitLogging) :
    w.exitCount exit = b.exitCount exit := by
  cases exit with
  | enabled emptyArray message => exact hw.countP_isExit
  | disabled => rfl
  | unavailable cause => rfl

theorem size (hw : b.Padded w lead tail) :
    w.instructions.size =
      b.instructions.size + lead.length +
        b.instructions.entries.countP (b.IsExit ·) * tail.length := by
  have hlength : ∀ l : InstructionList, l.entries.length = l.size := by
    intro l
    rw [← length_handles, ← entries_map_fst, List.length_map]
  obtain ⟨front, before, hentries, hfront, hbefore⟩ := hw.entries
  have hbetween : ∀ e ∈ b.instructions.entries,
      (before e).length =
        if (decide (b.IsExit e) : Bool) = true then tail.length else 0 := by
    intro e he
    rw [← List.length_map (f := (·.2)), hbefore e he]
    simp only [decide_eq_true_eq]
    split <;> rfl
  rw [← hlength, hentries, List.length_append, length_flatMap_before hbetween,
    hlength, ← hfront, List.length_map]
  omega

end Padded

end Body

/-! ## §2  One more plan -/

theorem withBlocks_of_nil {blocks : List Placed}
    {es : List (Handle × Instruction Handle)}
    (hnone : ∀ e ∈ es, blocksBefore blocks e.1 = []) : withBlocks blocks es = es := by
  have heach : ∀ e ∈ es, blocksBefore blocks e.1 ++ [e] = [e] := by
    intro e he
    rw [hnone e he, List.nil_append]
  rw [withBlocks, List.flatMap_congr heach, List.flatMap_singleton']

/-- Every slot costs the same. -/
theorem length_entryCode {β : Type} (m : MethodDef β) (logger : FieldRef)
    (callable : MethodRef) (slot slot' : UInt16) :
    (entryCode m logger callable slot).length =
      (entryCode m logger callable slot').length := by
  simp [entryCode, packArgument, List.length_flatMap]

namespace Plan.Suits

variable {p : Plan} {m : MethodDef Body} {b w v : Body}
  {logger : FieldRef} {callable : MethodRef} {exit : ExitLogging}
  {entry : List (Handle × Instruction Handle)} {exits : List Placed}

/-- The entry call comes first, then all there was with the exit calls in
between. -/
theorem entries_applied (hp : p.Suits m w logger callable exit)
    (ha : p.Applied w v entry exits) :
    v.instructions.entries = entry ++ withBlocks exits w.instructions.entries := by
  have hanchors :
      ∀ x ∈ (p.entry.1, entry) :: exits, w.instructions.contains x.1 = true :=
    ha.forall_anchor (P := fun h => w.instructions.contains h = true) hp.contains
  obtain ⟨i, rest, hentries⟩ := exists_entries_of_first? hp.first
  have hsplit : w.instructions.entries = [] ++ (p.entry.1, i) :: rest := hentries
  have hnodup := w.instructions.nodup_entries_fst
  rw [hsplit] at hnodup
  rw [ha.splices.entries hanchors, hsplit, withBlocks_cons hnodup]
  rfl

theorem plain_exitCode (hp : p.Suits m w logger callable exit) :
    ∀ i ∈ exitCode logger callable exit, i.IsPlain := by
  cases exit with
  | disabled => simp [exitCode]
  | unavailable cause => exact absurd rfl (hp.available cause)
  | enabled emptyArray message =>
      exact fun i hi => (isLogStep_exitCall m.params.length 0 logger callable
        emptyArray message i hi).isPlain

/-- A plan for a padded body pads it once more, outside at the start and inside
before the exits. -/
theorem padded_applied {lead tail : List (Instruction Handle)}
    (hp : p.Suits m w logger callable exit) (hw : b.Padded w lead tail)
    (ha : p.Applied w v entry exits) :
    b.Padded v (entryCode m logger callable (UInt16.ofNat w.locals.size) ++ lead)
      (tail ++ exitCode logger callable exit) := by
  obtain ⟨front, before, hentries, hfront, hbefore⟩ := hw.entries
  have hblocks :
      ∀ e ∈ w.instructions.entries, e.2.IsPlain → blocksBefore exits e.1 = [] := by
    intro e he hplain
    have hcode := hp.map_blocksBefore ha he
    rw [if_neg (Body.not_isExit_of_isPlain hplain)] at hcode
    exact List.map_eq_nil_iff.mp hcode
  have hlead : withBlocks exits front = front := by
    refine withBlocks_of_nil fun e he =>
      hblocks e ?_ (hw.plainLead _ (hfront ▸ List.mem_map_of_mem he))
    rw [hentries]
    exact List.mem_append_left _ he
  have hold : ∀ e ∈ b.instructions.entries,
      withBlocks exits (before e ++ [e]) =
        (before e ++ blocksBefore exits e.1) ++ [e] := by
    intro e he
    have hbetween : withBlocks exits (before e) = before e := by
      refine withBlocks_of_nil fun x hx => hblocks x ?_ ?_
      · rw [hentries]
        exact List.mem_append_right _
          (List.mem_flatMap.mpr ⟨e, he, List.mem_append_left _ hx⟩)
      · exact hw.isPlain_of_mem_before (hbefore e he) hx
    rw [withBlocks_append, hbetween, withBlocks_entry, List.append_assoc]
    rfl
  refine ⟨⟨entry ++ front, fun e => before e ++ blocksBefore exits e.1, ?_, ?_, ?_⟩,
    ?_, ?_, ?_⟩
  · have hmiddle :
        withBlocks exits (b.instructions.entries.flatMap fun e => before e ++ [e]) =
        b.instructions.entries.flatMap fun e =>
          (before e ++ blocksBefore exits e.1) ++ [e] := by
      rw [withBlocks, List.flatMap_assoc]
      exact List.flatMap_congr hold
    rw [hp.entries_applied ha, hentries, withBlocks_append, hlead,
      hmiddle, List.append_assoc]
  · rw [List.map_append, ha.entryCode, hp.entry, hfront]
  · intro e he
    rw [List.map_append, hbefore e he,
      hp.map_blocksBefore ha (hw.mem_entries_of_mem he)]
    simp only [hw.isExit_iff]
    split <;> simp
  · exact ha.splices.handlers.trans hw.handlers
  · refine List.forall_mem_append.mpr ⟨fun i hi => ?_, hw.plainLead⟩
    exact (isLogStep_entryCode m logger callable _ i hi).isPlain
  · exact List.forall_mem_append.mpr ⟨hw.plainTail, hp.plain_exitCode⟩

/-- How many instructions a plan adds. -/
theorem length_eq (hp : p.Suits m b logger callable exit) :
    p.length =
      (entryCode m logger callable (UInt16.ofNat b.locals.size)).length +
        b.instructions.entries.countP (b.IsExit ·) *
          (exitCode logger callable exit).length := by
  rw [length, List.map_cons, List.sum_cons, hp.entry, hp.exits]
  cases exit with
  | disabled => rfl
  | unavailable cause => rfl
  | enabled emptyArray message =>
      simp [Body.exitCalls, Body.exits_eq, exitCode,
        List.countP_eq_length_filter, Function.comp_def]

end Plan.Suits

/-! ## §3  One more pass over a method -/

/-- The entry calls of several passes over a method with some slots of its own,
the latest first. -/
def entryCodes {β : Type} (m : MethodDef β) (logger : FieldRef) (callable : MethodRef)
    (slots n : Nat) : List (Instruction Handle) :=
  (List.range n).reverse.flatMap fun k =>
    entryCode m logger callable (UInt16.ofNat (slots + k))

theorem entryCodes_succ {β : Type} (m : MethodDef β) (logger : FieldRef)
    (callable : MethodRef) (slots n : Nat) :
    entryCodes m logger callable slots (n + 1) =
      entryCode m logger callable (UInt16.ofNat (slots + n)) ++
        entryCodes m logger callable slots n := by
  simp [entryCodes, List.range_succ]

theorem length_entryCodes {β : Type} (m : MethodDef β) (logger : FieldRef)
    (callable : MethodRef) (slots n : Nat) (slot : UInt16) :
    (entryCodes m logger callable slots n).length =
      n * (entryCode m logger callable slot).length := by
  induction n with
  | zero => simp [entryCodes]
  | succ n ih =>
      rw [entryCodes_succ, List.length_append, ih, Nat.succ_mul, Nat.add_comm,
        length_entryCode m logger callable (UInt16.ofNat (slots + n)) slot]

namespace MethodDef

variable {m : MethodDef Body} {b w : Body} {p : Plan}
  {calls : LogCalls} {typeName : String} {logger : FieldRef}
  {lead tail : List (Instruction Handle)} {n : Nat}

/-- A pass instruments a padded body as it does the body itself, and pads it
once more. -/
theorem instrument_padded (typeName : String)
    (hp : p.Suits m b logger calls.callable calls.exit) (helig : m.isEligible = true)
    (hw : b.Padded w lead tail) (hslots : w.locals.size < UInt16.size)
    (hroom : w.instructions.size + p.length ≤ capacity) :
    ∃ v, (m.withBody (some w)).instrument calls typeName logger =
        (m.withBody (some v),
          .instrumented ⟨typeName, m.name, true, b.exitCount calls.exit⟩) ∧
      b.Padded v
        (entryCode m logger calls.callable (UInt16.ofNat w.locals.size) ++ lead)
        (tail ++ exitCode logger calls.callable calls.exit) ∧
      v.locals = w.locals.push .objects := by
  have hsome : b.instructions.first?.isSome = true := by
    rw [hp.first]
    rfl
  obtain ⟨h, hfirst⟩ := hw.exists_first? hsome
  obtain ⟨q, hplan⟩ := exists_plan (m := m.withBody (some w)) logger calls.callable
    rfl hfirst hp.parameters hslots hp.available
  have hq := suits_of_plan (b := w) rfl hplan
  have hlength : q.length = p.length := by
    rw [hq.length_eq, hp.length_eq, hw.countP_isExit,
      length_entryCode _ logger calls.callable _ (UInt16.ofNat b.locals.size)]
    rfl
  obtain ⟨m', hok⟩ := hq.apply_ok (by rw [hlength]; exact hroom)
  obtain ⟨-, v, entry, exits, rfl, ha, hlocals, -⟩ := hq.applied hok
  refine ⟨v, ?_, hq.padded_applied hw ha, hlocals⟩
  have helig' : (m.withBody (some w)).isEligible = true := by
    simp only [isEligible, Bool.and_eq_true] at helig ⊢
    exact ⟨helig.1, rfl⟩
  rw [instrument, if_pos helig', hplan]
  simp only [hok, hq.length_exits, hw.exitCount]
  rfl

def afterPasses (m : MethodDef Body) (calls : LogCalls) (typeName : String)
    (logger : FieldRef) (n : Nat) : MethodDef Body :=
  (fun m => (m.instrument calls typeName logger).1)^[n] m

theorem afterPasses_succ (m : MethodDef Body) (calls : LogCalls) (typeName : String)
    (logger : FieldRef) (n : Nat) :
    m.afterPasses calls typeName logger (n + 1) =
      ((m.afterPasses calls typeName logger n).instrument calls typeName logger).1 :=
  Function.iterate_succ_apply' ..

/-- What a number of passes have made of a body. -/
structure Stacked (m : MethodDef Body) (b w : Body) (calls : LogCalls)
    (logger : FieldRef) (n : Nat) : Prop where
  padded : b.Padded w (entryCodes m logger calls.callable b.locals.size n)
    (List.replicate n (exitCode logger calls.callable calls.exit)).flatten
  locals : w.locals = b.locals ++ Array.replicate n .objects

theorem Stacked.size (hw : m.Stacked b w calls logger n)
    (hp : p.Suits m b logger calls.callable calls.exit) :
    w.instructions.size = b.instructions.size + n * p.length := by
  have hexits :
      (List.replicate n (exitCode logger calls.callable calls.exit)).flatten.length =
      n * (exitCode logger calls.callable calls.exit).length := by
    simp
  rw [hw.padded.size, length_entryCodes _ _ _ _ _ (UInt16.ofNat b.locals.size),
    hexits, hp.length_eq]
  ring

theorem Stacked.instrument (hw : m.Stacked b w calls logger n) (typeName : String)
    (hp : p.Suits m b logger calls.callable calls.exit) (helig : m.isEligible = true)
    (hlocals : b.locals.size + (n + 1) ≤ Body.maxLocals)
    (hroom : b.instructions.size + (n + 1) * p.length ≤ capacity) :
    ∃ v, (m.withBody (some w)).instrument calls typeName logger =
        (m.withBody (some v),
          .instrumented ⟨typeName, m.name, true, b.exitCount calls.exit⟩) ∧
      m.Stacked b v calls logger (n + 1) := by
  have hslot : w.locals.size = b.locals.size + n := by
    rw [hw.locals, Array.size_append, Array.size_replicate]
  have hslots : w.locals.size < UInt16.size := by
    rw [hslot]
    exact hlocals
  have hsize : w.instructions.size + p.length ≤ capacity := by
    rw [hw.size hp, Nat.add_assoc, ← Nat.succ_mul]
    exact hroom
  obtain ⟨v, hdone, hpadded, hv⟩ :=
    instrument_padded typeName hp helig hw.padded hslots hsize
  refine ⟨v, hdone, ⟨?_, ?_⟩⟩
  · rw [hslot] at hpadded
    rw [entryCodes_succ, List.replicate_succ',
      List.flatten_append, List.flatten_singleton]
    exact hpadded
  · rw [hv, hw.locals, Array.replicate_succ, Array.append_push]

theorem stacked_zero (m : MethodDef Body) (b : Body) (calls : LogCalls)
    (logger : FieldRef) : m.Stacked b b calls logger 0 :=
  ⟨b.padded_refl, by simp⟩

/-- Passes stack their calls up as long as there are slots and room for them. -/
theorem exists_stacked (typeName : String)
    (hp : p.Suits m b logger calls.callable calls.exit) (helig : m.isEligible = true)
    (hlocals : b.locals.size + n ≤ Body.maxLocals)
    (hroom : b.instructions.size + n * p.length ≤ capacity) :
    ∃ w, m.afterPasses calls typeName logger n = m.withBody (some w) ∧
      m.Stacked b w calls logger n := by
  induction n with
  | zero => exact ⟨b, (withBody_self hp.body).symm, m.stacked_zero b calls logger⟩
  | succ n ih =>
      have hfewer : n * p.length ≤ (n + 1) * p.length :=
        Nat.mul_le_mul_right _ (Nat.le_succ n)
      obtain ⟨w, hw, hstacked⟩ := ih (by omega) (by omega)
      obtain ⟨v, hdone, hv⟩ := hstacked.instrument typeName hp helig hlocals hroom
      exact ⟨v, by rw [afterPasses_succ, hw, hdone], hv⟩

/-- Each of the passes reports the same. -/
theorem instrument_afterPasses (hp : p.Suits m b logger calls.callable calls.exit)
    (helig : m.isEligible = true) (hlocals : b.locals.size + (n + 1) ≤ Body.maxLocals)
    (hroom : b.instructions.size + (n + 1) * p.length ≤ capacity) :
    ((m.afterPasses calls typeName logger n).instrument calls typeName logger).2 =
      .instrumented ⟨typeName, m.name, true, b.exitCount calls.exit⟩ := by
  have hfewer : n * p.length ≤ (n + 1) * p.length :=
    Nat.mul_le_mul_right _ (Nat.le_succ n)
  obtain ⟨w, hw, hstacked⟩ :=
    exists_stacked (n := n) typeName hp helig (by omega) (by omega)
  obtain ⟨v, hdone, -⟩ := hstacked.instrument typeName hp helig hlocals hroom
  rw [hw, hdone]

/-- What a method that is instrumented was planned for. -/
theorem suits_of_instrumented {x : InstrumentedMethod} (hbody : m.body? = some b)
    (hdone : (m.instrument calls typeName logger).2 = .instrumented x) :
    m.isEligible = true ∧ ∃ p, m.plan logger calls.callable calls.exit = .ok p ∧
      p.Suits m b logger calls.callable calls.exit ∧
      x = ⟨typeName, m.name, true, b.exitCount calls.exit⟩ := by
  unfold instrument at hdone
  split at hdone
  · rename_i helig
    cases hplan : m.plan logger calls.callable calls.exit with
    | error e => simp [hplan] at hdone
    | ok p =>
        have hp := suits_of_plan hbody hplan
        rcases happly : m.apply p with ⟨e | sites, m'⟩
        · simp [hplan, happly] at hdone
        · simp only [hplan, happly, Outcome.instrumented.injEq] at hdone
          obtain ⟨hsites, -⟩ := hp.applied happly
          refine ⟨helig, p, rfl, hp, ?_⟩
          rw [← hdone, hsites, hp.length_exits]
  · exact absurd hdone nofun

end MethodDef

/-! ## §4  Types and modules -/

section

variable {t : TypeDef Body} {home : Module Body} {calls : LogCalls}
  {pattern : LoggerPattern} {n : Nat}

theorem TypeDef.loggerField?_withMethods (t : TypeDef Body) (pattern : LoggerPattern)
    (f : MethodDef Body → MethodDef Body) :
    (t.withMethods (t.methods.map f)).loggerField? pattern =
      t.loggerField? pattern := by
  simp [loggerField?, withMethods]

def TypeDef.afterPasses (t : TypeDef Body) (calls : LogCalls)
    (pattern : LoggerPattern) (n : Nat) : TypeDef Body :=
  (fun t => (t.instrument calls pattern).1)^[n] t

/-- Passes take each method of a type for itself. -/
theorem TypeDef.afterPasses_eq {field : FieldDef}
    (hfield : t.loggerField? pattern = some field) :
    t.afterPasses calls pattern n = t.withMethods (t.methods.map fun m =>
      m.afterPasses calls t.fullName (t.ownFieldRef field) n) := by
  induction n with
  | zero => exact (congrArg t.withMethods (List.map_id _)).symm
  | succ n ih =>
      have hsame := (TypeDef.loggerField?_withMethods t pattern fun m =>
        m.afterPasses calls t.fullName (t.ownFieldRef field) n).trans hfield
      rw [afterPasses, Function.iterate_succ_apply', ← afterPasses, ih,
        instrument, hsame]
      simp only [MethodDef.afterPasses_succ, withMethods, List.map_map]
      rfl

end

/-! ## §5  Passes -/

section

variable {resolve : ModuleReference → Resolution} {s : Settings} {home : Module Body}
  {calls : LogCalls} {n i j : Nat}

def Module.methodAt? {β : Type} (home : Module β) (i j : Nat) :
    Option (MethodDef β) :=
  home.types[i]?.bind (·.methods[j]?)

def Module.afterPasses (resolve : ModuleReference → Resolution) (s : Settings)
    (home : Module Body) (n : Nat) : Module Body :=
  (fun home => (Id.run (Module.pass (m := Id) resolve s home)).1)^[n] home

/-- What one pass makes of the methods of a module, type by type; without log
calls there is nothing to be made of them. -/
def Module.outcomes (resolve : ModuleReference → Resolution) (s : Settings)
    (home : Module Body) : List (List Outcome) :=
  match home.logCalls? resolve s with
  | none => []
  | some calls => home.types.map fun t => (t.instrument calls s.loggerField).2

def Module.outcomeAt? (resolve : ModuleReference → Resolution) (s : Settings)
    (home : Module Body) (i j : Nat) : Option Outcome :=
  (home.outcomes resolve s)[i]?.bind (·[j]?)

/-- A pass lists the methods that it has instrumented, in the order of the
module. -/
theorem Module.instrumented_pass (resolve : ModuleReference → Resolution)
    (s : Settings) (home : Module Body) :
    (Id.run (Module.pass (m := Id) resolve s home)).2.instrumented =
      (home.outcomes resolve s).flatten.filterMap Outcome.instrumented? := by
  obtain ⟨r, hr, hpass⟩ := home.exists_pass_eq resolve s
  rw [hpass, outcomes]
  cases home.logCalls? resolve s with
  | none => exact hr
  | some calls =>
      simp only [instrument, Report.foldl_record, hr, List.nil_append,
        List.flatMap_def, List.map_map, Function.comp_def]

theorem Module.afterPasses_eq (hcalls : home.logCalls? resolve s = some calls) :
    home.afterPasses resolve s n =
      home.withTypes (home.types.map fun t =>
        t.afterPasses calls s.loggerField n) := by
  induction n with
  | zero => exact (congrArg home.withTypes (List.map_id _)).symm
  | succ n ih =>
      have hsame : (home.withTypes (home.types.map fun t =>
          t.afterPasses calls s.loggerField n)).logCalls? resolve s =
          some calls := hcalls
      rw [afterPasses, Function.iterate_succ_apply', ← afterPasses, ih,
        pass_fst, hsame]
      simp only [instrument_fst, withTypes, List.map_map, Function.comp_def,
        TypeDef.afterPasses, Function.iterate_succ_apply']

section

variable {t : TypeDef Body} {m : MethodDef Body} {field : FieldDef}

theorem Module.outcomeAt?_eq (hcalls : home.logCalls? resolve s = some calls)
    (ht : home.types[i]? = some t)
    (hfield : t.loggerField? s.loggerField = some field)
    (hm : t.methods[j]? = some m) :
    home.outcomeAt? resolve s i j =
      some (m.instrument calls t.fullName (t.ownFieldRef field)).2 := by
  rw [outcomeAt?, outcomes, hcalls, List.getElem?_map, ht]
  simp [TypeDef.instrument, hfield, hm]

/-- Something is made of a method only with log calls, for a type with a logger
field. -/
theorem Module.exists_calls_of_outcomeAt? {o : Outcome}
    (ho : home.outcomeAt? resolve s i j = some o) (ht : home.types[i]? = some t) :
    ∃ calls field, home.logCalls? resolve s = some calls ∧
      t.loggerField? s.loggerField = some field := by
  rw [outcomeAt?, outcomes] at ho
  cases hcalls : home.logCalls? resolve s with
  | none => simp [hcalls] at ho
  | some calls =>
      cases hfield : t.loggerField? s.loggerField with
      | none => simp [hcalls, ht, TypeDef.instrument, hfield] at ho
      | some field => exact ⟨calls, field, rfl, rfl⟩

/-- Where a method is after some passes, and what the next pass makes of it. -/
theorem Module.at_afterPasses (hcalls : home.logCalls? resolve s = some calls)
    (ht : home.types[i]? = some t)
    (hfield : t.loggerField? s.loggerField = some field)
    (hm : t.methods[j]? = some m) (n : Nat) :
    let left := m.afterPasses calls t.fullName (t.ownFieldRef field) n
    (home.afterPasses resolve s n).methodAt? i j = some left ∧
      (home.afterPasses resolve s n).outcomeAt? resolve s i j =
        some (left.instrument calls t.fullName (t.ownFieldRef field)).2 := by
  intro left
  have ht' : (home.afterPasses resolve s n).types[i]? =
      some (t.afterPasses calls s.loggerField n) := by
    rw [afterPasses_eq hcalls]
    simp [withTypes, ht]
  have hm' : (t.afterPasses calls s.loggerField n).methods[j]? = some left := by
    rw [TypeDef.afterPasses_eq hfield]
    simp [TypeDef.withMethods, hm, left]
  have hcalls' : (home.afterPasses resolve s n).logCalls? resolve s = some calls := by
    rw [afterPasses_eq hcalls]
    exact hcalls
  have hfield' : (t.afterPasses calls s.loggerField n).loggerField? s.loggerField =
      some field := by
    rw [TypeDef.afterPasses_eq hfield, TypeDef.loggerField?_withMethods, hfield]
  have hsame : (t.afterPasses calls s.loggerField n).fullName = t.fullName ∧
      (t.afterPasses calls s.loggerField n).ownFieldRef field =
        t.ownFieldRef field := by
    rw [TypeDef.afterPasses_eq hfield]
    exact ⟨rfl, rfl⟩
  refine ⟨by rw [methodAt?, ht', Option.bind_some, hm'], ?_⟩
  rw [outcomeAt?_eq hcalls' ht' hfield' hm', hsame.1, hsame.2]

end

/-- Exit calls name no local slot. -/
theorem not_local_of_mem_exitCode {logger : FieldRef}
    {callable : MethodRef} {exit : ExitLogging} {step : Instruction Handle}
    (hstep : step ∈ exitCode logger callable exit) (slot : UInt16) :
    step.operand ≠ .local slot := by
  cases exit with
  | disabled => simp [exitCode] at hstep
  | unavailable cause => simp [exitCode] at hstep
  | enabled emptyArray message =>
      -- a log step names the slot of its call at most, and these are log steps
      -- over any slot
      intro hslot
      have hsteps :=
        fun n => isLogStep_exitCall 0 n logger callable emptyArray message step hstep
      have hzero : slot = 0 := (hsteps 0).slot_eq hslot
      have hone : slot = 1 := (hsteps 1).slot_eq hslot
      exact absurd (hzero.symm.trans hone) (by decide)

end

/-- Passes with the same settings and resolver stack up. Each of them lists what
it has instrumented in the order of the module. A method that the first pass
instruments is instrumented by every further one with the same entry in the
report, as long as it has slots and its list has room for all the calls. It then
has its own slots and one array for each pass; its code starts with the entry
calls, the latest first, and goes on with its own instructions, in order and
under their own handles, each exit with as many exit calls immediately before it
as there were passes. The entry call of a pass names no slot but the one that
the pass has added, and exit calls name none. -/
theorem Module.passes_stack_up (resolve : ModuleReference → Resolution) (s : Settings)
    (home : Module Body) :
    (∀ k, (Id.run (Module.pass (m := Id) resolve s
        (home.afterPasses resolve s k))).2.instrumented =
      ((home.afterPasses resolve s k).outcomes resolve s).flatten.filterMap
        Outcome.instrumented?) ∧
    ∀ i j t m b x, home.types[i]? = some t → t.methods[j]? = some m →
      m.body? = some b →
      home.outcomeAt? resolve s i j = some (.instrumented x) →
      ∃ calls field p, home.logCalls? resolve s = some calls ∧
        t.loggerField? s.loggerField = some field ∧
        m.plan (t.ownFieldRef field) calls.callable calls.exit = .ok p ∧
        x = ⟨t.fullName, m.name, true, b.exitCount calls.exit⟩ ∧
        ∀ n, b.locals.size + n ≤ Body.maxLocals →
        b.instructions.size + n * p.length ≤ capacity →
          let entry (k : Nat) : List (Instruction Handle) :=
            entryCode m (t.ownFieldRef field) calls.callable
              (UInt16.ofNat (b.locals.size + k))
          let exit := exitCode (t.ownFieldRef field) calls.callable calls.exit
          (∀ k < n, (home.afterPasses resolve s k).outcomeAt? resolve s i j =
            some (.instrumented x)) ∧
          ∃ w front,
          ∃ before : Handle × Instruction Handle → List (Handle × Instruction Handle),
            (home.afterPasses resolve s n).methodAt? i j =
              some (m.withBody (some w)) ∧
            w.locals = b.locals ++ Array.replicate n .objects ∧
            w.handlers = b.handlers ∧
            w.instructions.entries =
              front ++ b.instructions.entries.flatMap (fun e => before e ++ [e]) ∧
            front.map (·.2) = (List.range n).reverse.flatMap entry ∧
            (∀ e ∈ b.instructions.entries, (before e).map (·.2) =
              if b.IsExit e then (List.replicate n exit).flatten else []) ∧
            (∀ k < n, ∀ step ∈ entry k, ∀ slot, step.operand = .local slot →
              slot.toNat = b.locals.size + k) ∧
            ∀ step ∈ exit, ∀ slot, step.operand ≠ .local slot := by
  refine ⟨fun k => instrumented_pass resolve s _,
    fun i j t m b x ht hm hbody hdone => ?_⟩
  obtain ⟨calls, field, hcalls, hfield⟩ := exists_calls_of_outcomeAt? hdone ht
  rw [outcomeAt?_eq hcalls ht hfield hm, Option.some.injEq] at hdone
  obtain ⟨helig, p, hplan, hp, rfl⟩ := MethodDef.suits_of_instrumented hbody hdone
  refine ⟨calls, field, p, hcalls, hfield, hplan, rfl, fun n hlocals hroom => ?_⟩
  obtain ⟨w, hw, hstacked⟩ :=
    MethodDef.exists_stacked t.fullName hp helig hlocals hroom
  obtain ⟨front, before, hentries, hfront, hbefore⟩ := hstacked.padded.entries
  refine ⟨fun k hk => ?_, w, front, before, ?_, hstacked.locals,
    hstacked.padded.handlers, hentries, hfront, hbefore,
    fun k hk step hstep slot hslot => ?_,
    fun step hstep => not_local_of_mem_exitCode hstep⟩
  · have hfewer : (k + 1) * p.length ≤ n * p.length := Nat.mul_le_mul_right _ hk
    rw [(at_afterPasses hcalls ht hfield hm k).2,
      MethodDef.instrument_afterPasses hp helig (by omega) (by omega)]
  · rw [(at_afterPasses hcalls ht hfield hm n).1, hw]
  · have hlt : b.locals.size + k < UInt16.size := by
      have hmax : Body.maxLocals = UInt16.size := rfl
      omega
    rw [(isLogStep_entryCode m _ _ _ step hstep).slot_eq hslot,
      UInt16.toNat_ofNat_of_lt' hlt]

def guardingModule : Module Body :=
  { application with
    coreLibrary? := some "Core"
    types := [{ serviceType with methods := [hollowMethod, guardedMethod] }] }

theorem Module.passes_stack_up_guarding :
    let resolve := (ModuleTable.ofList [levelledLogging, arraysLibrary]).resolve
    let s := { levelledSettings with exitLogging := true }
    (∀ k < 2, (guardingModule.afterPasses resolve s k).outcomeAt? resolve s 0 1 =
      some (.instrumented ⟨"App.Service", "Guard", true, 1⟩)) ∧
    ∃ w, (guardingModule.afterPasses resolve s 2).methodAt? 0 1 =
      some (guardedMethod.withBody (some w)) ∧
      w.locals = #[.objects, .objects] := by
  intro resolve s
  have hdone : guardingModule.outcomeAt? resolve s 0 1 =
      some (.instrumented ⟨"App.Service", "Guard", true, 1⟩) := by decide +kernel
  obtain ⟨calls, field, p, -, -, hplan, -, hstack⟩ :=
    (passes_stack_up resolve s guardingModule).2 0 1
      { serviceType with methods := [hollowMethod, guardedMethod] } guardedMethod
      Body.guarded _ rfl rfl rfl hdone
  obtain ⟨b, hp⟩ := MethodDef.plan_eq_ok hplan
  obtain rfl : Body.guarded = b := Option.some.inj hp.body
  have hlength : p.length ≤ 18 := hp.length_le
  have hroom : Body.guarded.instructions.size + 2 * p.length ≤ capacity := by
    have hsize : Body.guarded.instructions.size = 3 := rfl
    simp only [hsize, capacity, UInt32.size]
    omega
  obtain ⟨hreports, w, -, -, hw, hlocals, -⟩ := hstack 2 (by decide) hroom
  exact ⟨hreports, w, hw, hlocals⟩

end Instrumentation
