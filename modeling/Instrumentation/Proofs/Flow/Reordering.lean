import Instrumentation.Proofs.Flow.DeclaredStack

/-!
# What the analysis of the stack depends on

The analysis visits handlers and jump-table targets in the order in which a body
lists them, the last one first. Its answer speaks of reachable states alone, and
what is reachable does not know of any order: a body whose handlers and jump
tables are listed differently runs through the same states, so it needs the same
stack or is refused as well. Only the refusal may be another one, for it names
the first state found at fault.

Sections: §1 reordered bodies · §2 what an instruction does · §3 the states of a
body · §4 the exact answer.
-/

namespace Instrumentation

/-! ## §1  Reordered bodies -/

/-- The same operand up to the order in which a jump table lists its targets. -/
inductive Operand.Reordered : Operand Handle → Operand Handle → Prop
  | same (o : Operand Handle) : Reordered o o
  | switch {ts us : List Handle} : ts.Perm us → Reordered (.switch ts) (.switch us)

structure Instruction.Reordered (i j : Instruction Handle) : Prop where
  op : j.op = i.op
  operand : i.operand.Reordered j.operand

/-- The same body up to the order of its handlers and of the targets in jump
tables. -/
structure Body.Reordered (b c : Body) : Prop where
  handles : c.instructions.handles = b.instructions.handles
  instructions : ∀ {h i}, b.instructions.get? h = some i →
    ∃ j, c.instructions.get? h = some j ∧ i.Reordered j
  handlers : b.handlers.Perm c.handlers

/-! ## §2  What an instruction does -/

namespace Instruction.Reordered

variable {i j : Instruction Handle}

theorem symm (hij : i.Reordered j) : j.Reordered i := by
  obtain ⟨op, o⟩ := i
  obtain ⟨op', o'⟩ := j
  obtain ⟨hop, ho⟩ := hij
  refine ⟨hop.symm, ?_⟩
  cases ho with
  | same => exact .same _
  | switch hperm => exact .switch hperm.symm

theorem targets_perm (hij : i.Reordered j) : i.targets.Perm j.targets := by
  obtain ⟨op, o⟩ := i
  obtain ⟨op', o'⟩ := j
  obtain ⟨-, ho⟩ := hij
  cases ho with
  | same => exact .refl _
  | switch hperm => exact hperm

/-- A jump table has no say in the effect of an instruction, whatever the opcode. -/
theorem effect_eq (hij : i.Reordered j) (returnsValue : Bool) (p : Nat) :
    j.effect returnsValue p = i.effect returnsValue p := by
  obtain ⟨op, o⟩ := i
  obtain ⟨op', o'⟩ := j
  obtain ⟨hop, ho⟩ := hij
  obtain rfl : op' = op := hop
  cases ho with
  | same => rfl
  | switch => cases op' <;> rfl

end Instruction.Reordered

namespace Body

variable {b c : Body} {returnsValue : Bool} {s t : FlowState}

/-! ## §3  The states of a body -/

namespace Reordered

theorem symm (hbc : b.Reordered c) : c.Reordered b := by
  refine ⟨hbc.handles.symm, fun {h j} hj => ?_, hbc.handlers.symm⟩
  have hmem : h ∈ b.instructions.handles :=
    hbc.handles ▸ InstructionList.mem_handles.mpr
      (InstructionList.contains_of_get? hj)
  obtain ⟨i, hi⟩ :=
    InstructionList.contains_iff_get?.mp (InstructionList.mem_handles.mp hmem)
  obtain ⟨j', hj', hij⟩ := hbc.instructions hi
  obtain rfl : j' = j := Option.some.inj (hj'.symm.trans hj)
  exact ⟨i, hi, hij.symm⟩

/-- Bodies around two codes that agree instruction by instruction. -/
theorem ofList {identity : Nat} {code code' : List (Instruction Handle)}
    (hb : b.instructions = .ofList identity code)
    (hc : c.instructions = .ofList identity code')
    (hcode : List.Forall₂ Instruction.Reordered code code')
    (hhandlers : b.handlers.Perm c.handlers) : b.Reordered c := by
  refine ⟨?_, fun {h i} hi => ?_, hhandlers⟩
  · rw [hb, hc, InstructionList.handles_ofList, InstructionList.handles_ofList,
      hcode.length_eq]
  · rw [hb, InstructionList.get?_ofList] at hi
    rw [hc, InstructionList.get?_ofList]
    split at hi
    · rename_i horigin
      obtain ⟨hlt, rfl⟩ := List.getElem?_eq_some_iff.mp hi
      have hlt' : h.index < code'.length := hcode.length_eq ▸ hlt
      exact ⟨code'[h.index], by rw [if_pos horigin, List.getElem?_eq_getElem hlt'],
        hcode.get hlt hlt'⟩
    · exact absurd hi nofun

theorem enters (hbc : b.Reordered c) (hs : b.Enters s) : c.Enters s := by
  cases hs with
  | first hfirst =>
      rw [InstructionList.first?_eq_head?, ← hbc.handles,
        ← InstructionList.first?_eq_head?] at hfirst
      exact .first hfirst
  | catches hx hkind => exact .catches (hbc.handlers.mem_iff.mp hx) hkind
  | filtered hx hkind => exact .filtered (hbc.handlers.mem_iff.mp hx) hkind
  | filter hx hkind => exact .filter (hbc.handlers.mem_iff.mp hx) hkind
  | finallyBlock hx hkind => exact .finallyBlock (hbc.handlers.mem_iff.mp hx) hkind
  | faultBlock hx hkind => exact .faultBlock (hbc.handlers.mem_iff.mp hx) hkind

theorem performs {i : Instruction Handle} {after : Nat} (hbc : b.Reordered c)
    (hi : b.Performs returnsValue s i after) :
    ∃ j, i.Reordered j ∧ c.Performs returnsValue s j after := by
  obtain ⟨hget, e, he, hpops, hafter⟩ := hi
  obtain ⟨j, hj, hij⟩ := hbc.instructions hget
  exact ⟨j, hij, hj, e, (hij.effect_eq returnsValue 0).trans he, hpops, hafter⟩

theorem step (hbc : b.Reordered c) (hstep : b.Step returnsValue s t) :
    c.Step returnsValue s t := by
  cases hstep with
  | next hi hfall hnext =>
      obtain ⟨j, hij, hj⟩ := hbc.performs hi
      rw [InstructionList.next?_eq_some_iff, ← hbc.handles,
        ← InstructionList.next?_eq_some_iff] at hnext
      exact .next hj (hij.op ▸ hfall) hnext
  | jump hi hfollows hne hmem =>
      obtain ⟨j, hij, hj⟩ := hbc.performs hi
      exact .jump hj (hij.op ▸ hfollows) (hij.op ▸ hne)
        (hij.targets_perm.mem_iff.mp hmem)
  | leave hi hop hmem =>
      obtain ⟨j, hij, hj⟩ := hbc.performs hi
      exact .leave hj (hij.op.trans hop) (hij.targets_perm.mem_iff.mp hmem)

/-- A run goes through the same states, so the reachable states are the same. -/
theorem reachable (hbc : b.Reordered c) (hs : b.Reachable returnsValue s) :
    c.Reachable returnsValue s := by
  induction hs with
  | enters hs => exact .enters (hbc.enters hs)
  | step _ hstep ih => exact ih.step (hbc.step hstep)

theorem consistent (hbc : b.Reordered c) (hb : b.Consistent returnsValue) :
    c.Consistent returnsValue := by
  constructor
  · intro s hs
    obtain ⟨i, after, hi⟩ := hb.performs (hbc.symm.reachable hs)
    obtain ⟨j, -, hj⟩ := hbc.performs hi
    exact ⟨j, after, hj⟩
  · intro s t hs ht
    exact hb.depth (hbc.symm.reachable hs) (hbc.symm.reachable ht)

theorem isPeak {n : Nat} (hbc : b.Reordered c) (hn : b.IsPeak returnsValue n) :
    c.IsPeak returnsValue n := by
  constructor
  · intro s j after hs hj
    obtain ⟨i, -, hi⟩ := hbc.symm.performs hj
    exact hn.bounds (hbc.symm.reachable hs) hi
  · rcases hn.attained with hzero | ⟨s, i, after, hs, hi, heq⟩
    · exact .inl hzero
    · obtain ⟨j, -, hj⟩ := hbc.performs hi
      exact .inr ⟨s, j, after, hbc.reachable hs, hj, heq⟩

theorem peakDepth {n : Nat} (hbc : b.Reordered c)
    (hn : b.peakDepth returnsValue = .ok n) : c.peakDepth returnsValue = .ok n := by
  obtain ⟨hcons, hpeak⟩ := peakDepth_eq_ok_iff.mp hn
  exact peakDepth_eq_ok_iff.mpr ⟨hbc.consistent hcons, hbc.isPeak hpeak⟩

theorem requiredStack {required : UInt16} (hbc : b.Reordered c)
    (hok : b.requiredStack returnsValue = .ok required) :
    c.requiredStack returnsValue = .ok required := by
  obtain ⟨n, hn, hrequired⟩ := requiredStack_eq_ok_iff.mp hok
  exact requiredStack_eq_ok_iff.mpr ⟨n, hbc.peakDepth hn, hrequired⟩

end Reordered

/-! ## §4  The exact answer -/

/-- Nothing is reachable in a body without instructions and handlers. -/
theorem requiredStack_of_empty (hempty : b.instructions.isEmpty = true)
    (hnone : b.handlers = []) : b.requiredStack returnsValue = .ok 0 := by
  have hsize : b.instructions.size = 0 := of_decide_eq_true hempty
  have hhandles : b.instructions.handles = [] :=
    List.length_eq_zero_iff.mp (b.instructions.length_handles.trans hsize)
  have hno : ∀ s, ¬ b.Reachable returnsValue s := by
    intro s hs
    induction hs with
    | enters hs =>
        cases hs with
        | first hfirst => simp [InstructionList.first?_eq_head?, hhandles] at hfirst
        | _ hx => simp [hnone] at hx
    | step _ _ ih => exact ih
  have hpeak : b.peakDepth returnsValue = .ok 0 := by
    refine peakDepth_eq_ok_iff.mpr ⟨⟨?_, ?_⟩, ⟨?_, .inl rfl⟩⟩
    · exact fun {s} hs => absurd hs (hno s)
    · exact fun {s _} hs => absurd hs (hno s)
    · exact fun {s _ _} hs => absurd hs (hno s)
  exact requiredStack_eq_ok_iff.mpr ⟨0, hpeak, rfl⟩

/-- The analysis answers exactly for the bodies in which every reachable state
can go on and no instruction is reached with two depths, and what it answers is
the greatest depth as far as sixteen bits can say, nothing for an empty body.
Neither depends on the order of handlers or of the targets in jump tables. -/
theorem requiredStack_exact (b : Body) (returnsValue : Bool) :
    ((∃ required, b.requiredStack returnsValue = .ok required) ↔
      b.Consistent returnsValue) ∧
    (∀ required, b.requiredStack returnsValue = .ok required →
      ∃ peak, b.IsPeak returnsValue peak ∧ required.toNat = min 65535 peak) ∧
    (b.instructions.isEmpty = true → b.handlers = [] →
      b.requiredStack returnsValue = .ok 0) ∧
    ∀ c : Body, b.Reordered c →
      (c.requiredStack returnsValue).toOption =
        (b.requiredStack returnsValue).toOption := by
  refine ⟨consistent_iff_requiredStack.symm, ?_, requiredStack_of_empty, ?_⟩
  · intro required hok
    obtain ⟨peak, hpeak, -⟩ := requiredStack_eq_ok_iff.mp hok
    refine ⟨peak, (peakDepth_eq_ok_iff.mp hpeak).2, ?_⟩
    rw [toNat_requiredStack hpeak hok, Nat.min_comm]
    rfl
  · intro c hbc
    cases hb : b.requiredStack returnsValue with
    | ok required => rw [hbc.requiredStack hb]
    | error e =>
        cases hc : c.requiredStack returnsValue with
        | error e' => rfl
        | ok required =>
            have hok : b.requiredStack returnsValue = .ok required :=
              hbc.symm.requiredStack hc
            exact absurd (hb.symm.trans hok) nofun

/-- A body that goes by a table and recovers from what its first instructions
throw. The order of the table and of the handlers is left open. -/
def dispatching (targets : List Handle) (handlers : List (ExceptionHandler Handle)) :
    Body :=
  { Body.ofInstructions (.ofList 1
      [.ldarg 1, ⟨.switch, .switch targets⟩, ⟨.leave, .target ⟨1, 6⟩⟩, ⟨.pop, .none⟩,
        ⟨.leave, .target ⟨1, 6⟩⟩, ⟨.endfinally, .none⟩, ⟨.ret, .none⟩]) with
    handlers := handlers }

def recovers : ExceptionHandler Handle :=
  { kind := .catches .object, tryStart := ⟨1, 0⟩, tryEnd? := some ⟨1, 3⟩,
    handlerStart := ⟨1, 3⟩, handlerEnd? := some ⟨1, 5⟩ }

def concludes : ExceptionHandler Handle :=
  { kind := .finallyBlock, tryStart := ⟨1, 0⟩, tryEnd? := some ⟨1, 5⟩,
    handlerStart := ⟨1, 5⟩, handlerEnd? := some ⟨1, 6⟩ }

theorem dispatching_reordered {ts us : List Handle}
    {xs ys : List (ExceptionHandler Handle)} (htargets : ts.Perm us)
    (hhandlers : xs.Perm ys) :
    (dispatching ts xs).Reordered (dispatching us ys) := by
  refine .ofList rfl rfl ?_ hhandlers
  have hsame : ∀ i : Instruction Handle, i.Reordered i :=
    fun i => ⟨rfl, .same i.operand⟩
  exact .cons (hsame _) (.cons ⟨rfl, .switch htargets⟩
    (List.forall₂_same.mpr fun i _ => hsame i))

theorem requiredStack_exact_dispatching :
    (∃ peak, (dispatching [⟨1, 2⟩, ⟨1, 0⟩] [recovers, concludes]).IsPeak false peak ∧
      (1 : UInt16).toNat = min 65535 peak) ∧
    (Body.empty 1).requiredStack false = .ok 0 ∧
    ((dispatching [⟨1, 0⟩, ⟨1, 2⟩]
      [concludes, recovers]).requiredStack false).toOption = some 1 := by
  have hok : (dispatching [⟨1, 2⟩, ⟨1, 0⟩]
      [recovers, concludes]).requiredStack false = .ok 1 := rfl
  have hreordered := dispatching_reordered (List.Perm.swap ⟨1, 0⟩ ⟨1, 2⟩ [])
    (.swap concludes recovers [])
  obtain ⟨-, hpeak, -, horder⟩ :=
    requiredStack_exact (dispatching [⟨1, 2⟩, ⟨1, 0⟩] [recovers, concludes]) false
  refine ⟨hpeak 1 hok, (requiredStack_exact (Body.empty 1) false).2.2.1 rfl rfl, ?_⟩
  rw [horder _ hreordered, hok]
  rfl

end Body

end Instrumentation
