import Instrumentation.Flow.Depth
import Instrumentation.Proofs.ProgramOrder
import Mathlib.Data.List.Chain

/-!
# Runs of a body

Control is an instruction of a body together with the number of values that it
finds on the operand stack. It enters a body at the first instruction with
nothing on the stack, and at every block of a handler; from there it follows the
instructions, every branch either way. What a body does is the set of its runs,
and the analysis of the stack is judged against the states that runs reach.

Sections: §1 states · §2 entries · §3 steps · §4 reachable states and runs · §5
stack effects.
-/

namespace Instrumentation

/-! ## §1  States -/

/-- The instruction that comes next and the number of values on the stack before
it. -/
structure FlowState where
  handle : Handle
  depth : Nat
deriving DecidableEq

namespace Body

variable {b : Body} {returnsValue : Bool} {s t : FlowState}

/-! ## §2  Entries -/

/-- Where control enters a body: at its first instruction with an empty stack,
and at the blocks of its handlers, which find the exception on the stack if they
catch or filter it. -/
inductive Enters (b : Body) : FlowState → Prop
  | first {h : Handle} : b.instructions.first? = some h → Enters b ⟨h, 0⟩
  | catches {x : ExceptionHandler Handle} {type : TypeSig} :
      x ∈ b.handlers → x.kind = .catches type → Enters b ⟨x.handlerStart, 1⟩
  | filtered {x : ExceptionHandler Handle} {start : Handle} :
      x ∈ b.handlers → x.kind = .filter start → Enters b ⟨x.handlerStart, 1⟩
  | filter {x : ExceptionHandler Handle} {start : Handle} :
      x ∈ b.handlers → x.kind = .filter start → Enters b ⟨start, 1⟩
  | finallyBlock {x : ExceptionHandler Handle} :
      x ∈ b.handlers → x.kind = .finallyBlock → Enters b ⟨x.handlerStart, 0⟩
  | faultBlock {x : ExceptionHandler Handle} :
      x ∈ b.handlers → x.kind = .faultBlock → Enters b ⟨x.handlerStart, 0⟩

/-- Where a call enters a body: at its first instruction with an empty stack. -/
def AtStart (b : Body) (s : FlowState) : Prop :=
  b.instructions.first? = some s.handle ∧ s.depth = 0

/-! ## §3  Steps -/

/-- The instruction of a state finds the values it takes and leaves the stack at
depth `after`. The position that an effect is asked for only shows in refusals. -/
def Performs (b : Body) (returnsValue : Bool) (s : FlowState) (i : Instruction Handle)
    (after : Nat) : Prop :=
  b.instructions.get? s.handle = some i ∧
    ∃ e, i.effect returnsValue 0 = .ok e ∧ e.pops ≤ s.depth ∧
      after = s.depth - e.pops + e.pushes

/-- One step of control: to the instruction that follows unless the opcode ends
the flow, to a target of a branch, or with an emptied stack to the target of a
`leave`. -/
inductive Step (b : Body) (returnsValue : Bool) : FlowState → FlowState → Prop
  | next {s : FlowState} {i : Instruction Handle} {after : Nat} {h : Handle} :
      b.Performs returnsValue s i after → i.op.isTerminator = false →
      b.instructions.next? s.handle = some h → Step b returnsValue s ⟨h, after⟩
  | jump {s : FlowState} {i : Instruction Handle} {after : Nat} {h : Handle} :
      b.Performs returnsValue s i after → i.op.followsTargets = true → i.op ≠ .leave →
      h ∈ i.targets → Step b returnsValue s ⟨h, after⟩
  | leave {s : FlowState} {i : Instruction Handle} {after : Nat} {h : Handle} :
      b.Performs returnsValue s i after → i.op = .leave → h ∈ i.targets →
      Step b returnsValue s ⟨h, 0⟩

/-! ## §4  Reachable states and runs -/

inductive Reachable (b : Body) (returnsValue : Bool) : FlowState → Prop
  | enters {s : FlowState} : b.Enters s → Reachable b returnsValue s
  | step {s t : FlowState} :
      Reachable b returnsValue s → b.Step returnsValue s t →
      Reachable b returnsValue t

/-- The states that control passes through from a start on, for as long as one
looks. -/
def IsRunFrom (b : Body) (returnsValue : Bool) (start : FlowState → Prop)
    (run : List FlowState) : Prop :=
  (∀ s ∈ run.head?, start s) ∧ run.IsChain (b.Step returnsValue)

def IsRun (b : Body) (returnsValue : Bool) (run : List FlowState) : Prop :=
  b.IsRunFrom returnsValue b.Enters run

def IsMethodRun (b : Body) (returnsValue : Bool) (run : List FlowState) : Prop :=
  b.IsRunFrom returnsValue b.AtStart run

/-- Every instruction that another one or a handler names is one of the body's. -/
structure IsLinked (b : Body) : Prop where
  targets : ∀ {h i}, b.instructions.get? h = some i → ∀ t ∈ i.targets,
    b.instructions.contains t = true
  marks : ∀ x ∈ b.handlers, ∀ h ∈ x.marks, b.instructions.contains h = true

/-- Every reachable state can go on, and no instruction is reached with two
depths. -/
structure Consistent (b : Body) (returnsValue : Bool) : Prop where
  performs : ∀ {s}, b.Reachable returnsValue s →
    ∃ i after, b.Performs returnsValue s i after
  depth : ∀ {s t}, b.Reachable returnsValue s → b.Reachable returnsValue t →
    s.handle = t.handle → s.depth = t.depth

/-- The greatest depth before and after the instructions of reachable states. -/
structure IsPeak (b : Body) (returnsValue : Bool) (n : Nat) : Prop where
  bounds : ∀ {s i after}, b.Reachable returnsValue s →
    b.Performs returnsValue s i after → s.depth ≤ n ∧ after ≤ n
  attained : n = 0 ∨
    ∃ s i after, b.Reachable returnsValue s ∧ b.Performs returnsValue s i after ∧
      (n = s.depth ∨ n = after)

theorem IsPeak.unique {m n : Nat} (hm : b.IsPeak returnsValue m)
    (hn : b.IsPeak returnsValue n) : m = n := by
  have hle :
      ∀ {p q : Nat}, b.IsPeak returnsValue p → b.IsPeak returnsValue q → p ≤ q := by
    intro p q hp hq
    rcases hp.attained with rfl | ⟨s, i, after, hs, hi, rfl | rfl⟩
    · exact Nat.zero_le q
    · exact (hq.bounds hs hi).1
    · exact (hq.bounds hs hi).2
  exact Nat.le_antisymm (hle hm hn) (hle hn hm)

theorem AtStart.enters (hs : b.AtStart s) : b.Enters s := by
  obtain ⟨h, d⟩ := s
  obtain ⟨hfirst, rfl⟩ := hs
  exact .first hfirst

/-- A run can be left at any of its states by another step. -/
theorem IsRunFrom.turn {start : FlowState → Prop} {front back : List FlowState}
    (hrun : b.IsRunFrom returnsValue start (front ++ s :: back))
    (hstep : b.Step returnsValue s t) :
    b.IsRunFrom returnsValue start (front ++ [s] ++ [t]) := by
  obtain ⟨hhead, hchain⟩ := hrun
  refine ⟨?_, ?_⟩
  · cases front <;> simpa using hhead
  · have hupto : (front ++ [s]).IsChain (b.Step returnsValue) :=
      List.IsChain.infix hchain ⟨[], back, by simp⟩
    rw [List.append_assoc]
    exact List.isChain_append_cons_cons.mpr ⟨hupto, hstep, .singleton t⟩

/-- Control enters a body at the start, or at a mark of a handler, as it does
every body with the same handlers. -/
theorem Enters.start_or_mark (hs : b.Enters s) :
    b.AtStart s ∨
      (∃ x ∈ b.handlers, s.handle ∈ x.marks) ∧
        ∀ c : Body, c.handlers = b.handlers → c.Enters s := by
  cases hs with
  | first hfirst => exact .inl ⟨hfirst, rfl⟩
  | catches hx hkind =>
      exact .inr ⟨⟨_, hx, by simp [ExceptionHandler.marks]⟩,
        fun c hc => .catches (hc ▸ hx) hkind⟩
  | filtered hx hkind =>
      exact .inr ⟨⟨_, hx, by simp [ExceptionHandler.marks]⟩,
        fun c hc => .filtered (hc ▸ hx) hkind⟩
  | filter hx hkind =>
      exact .inr
        ⟨⟨_, hx, by simp [ExceptionHandler.marks, HandlerKind.filterStart?, hkind]⟩,
        fun c hc => .filter (hc ▸ hx) hkind⟩
  | finallyBlock hx hkind =>
      exact .inr ⟨⟨_, hx, by simp [ExceptionHandler.marks]⟩,
        fun c hc => .finallyBlock (hc ▸ hx) hkind⟩
  | faultBlock hx hkind =>
      exact .inr ⟨⟨_, hx, by simp [ExceptionHandler.marks]⟩,
        fun c hc => .faultBlock (hc ▸ hx) hkind⟩

theorem Performs.unique {i j : Instruction Handle} {m n : Nat}
    (hi : b.Performs returnsValue s i m) (hj : b.Performs returnsValue s j n) :
    i = j ∧ m = n := by
  obtain ⟨hget, e, he, -, rfl⟩ := hi
  obtain ⟨hget', e', he', -, rfl⟩ := hj
  obtain rfl : i = j := Option.some.inj (hget.symm.trans hget')
  obtain rfl : e = e' := Except.ok.inj (he.symm.trans he')
  exact ⟨rfl, rfl⟩

theorem Step.performs (hstep : b.Step returnsValue s t) :
    ∃ i after, b.Performs returnsValue s i after := by
  cases hstep with
  | next hi => exact ⟨_, _, hi⟩
  | jump hi => exact ⟨_, _, hi⟩
  | leave hi => exact ⟨_, _, hi⟩

theorem contains_of_next? {h k : Handle} (hnext : b.instructions.next? h = some k) :
    b.instructions.contains k = true :=
  InstructionList.mem_handles.mp
    ((InstructionList.next?_eq_some_iff.mp hnext).subset (by simp))

theorem contains_of_first? {h : Handle} (hfirst : b.instructions.first? = some h) :
    b.instructions.contains h = true := by
  rw [InstructionList.first?_eq_head?] at hfirst
  exact InstructionList.mem_handles.mp (List.mem_of_head? hfirst)

/-- Control stays inside a closed body. -/
theorem Enters.contains (hb : b.IsLinked) (hs : b.Enters s) :
    b.instructions.contains s.handle = true := by
  rcases hs.start_or_mark with ⟨hfirst, -⟩ | ⟨⟨x, hx, hmark⟩, -⟩
  · exact contains_of_first? hfirst
  · exact hb.marks x hx _ hmark

theorem Step.contains (hb : b.IsLinked) (hstep : b.Step returnsValue s t) :
    b.instructions.contains t.handle = true := by
  cases hstep with
  | next hi hfall hnext => exact contains_of_next? hnext
  | jump hi hfollows hne hmem => exact hb.targets hi.1 _ hmem
  | leave hi hop hmem => exact hb.targets hi.1 _ hmem

end Body

/-! ## §5  Stack effects -/

/-- Where an instruction stands has no influence on its effect. -/
theorem Instruction.effect_position {ρ : Type} {i : Instruction ρ}
    {returnsValue : Bool} {e : StackEffect} {p : Nat} (q : Nat)
    (h : i.effect returnsValue p = .ok e) : i.effect returnsValue q = .ok e := by
  unfold Instruction.effect at h ⊢
  split at h <;> simp_all

end Instrumentation
