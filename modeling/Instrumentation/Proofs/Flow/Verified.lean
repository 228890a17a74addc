import Instrumentation.Proofs.Flow.Exploration
import Instrumentation.Verification

/-!
# Verified bodies

What the verification of a body finds out. Its checks of single instructions, of
handlers and of the last instruction make a body closed: whatever an instruction
or a handler names is there, and so is the instruction after one that falls
through. The stack analysis adds that control is consistent. Together they keep
every run inside the body with enough on its stack.

Sections: §1 checks in sequence · §2 well-formed bodies · §3 verification · §4
safety · §5 methods and modules.
-/

namespace Instrumentation

/-! ## §1  Checks in sequence -/

theorem forM_eq_ok_iff {ε α : Type} {f : α → Except ε Unit} :
    ∀ {xs : List α}, xs.forM f = .ok () ↔ ∀ x ∈ xs, f x = .ok ()
  | [] => by simp [pure, Except.pure]
  | x :: xs => by
      have ih : xs.forM f = .ok () ↔ ∀ x ∈ xs, f x = .ok () := forM_eq_ok_iff
      rw [List.forM_eq_forM] at ih ⊢
      rw [List.forM_cons, List.forall_mem_cons, ← ih]
      cases f x <;> simp [bind, Except.bind]

/-- Checks that do not depend on where things stand. -/
theorem forM_zipIdx_eq_ok_iff {ε α : Type} {f : α × Nat → Except ε Unit}
    {p : α → Prop} {xs : List α} (hf : ∀ x n, f (x, n) = .ok () ↔ p x) :
    xs.zipIdx.forM f = .ok () ↔ ∀ x ∈ xs, p x := by
  rw [forM_eq_ok_iff]
  constructor
  · intro hall x hx
    obtain ⟨n, hn⟩ := List.mem_iff_getElem?.mp hx
    exact (hf x n).mp (hall (x, n) (List.mk_mem_zipIdx_iff_getElem?.mpr hn))
  · rintro hall ⟨x, n⟩ hx
    exact (hf x n).mpr
      (hall x (List.mem_of_getElem? (List.mk_mem_zipIdx_iff_getElem?.mp hx)))

theorem seq_eq_ok_iff {ε : Type} {x y : Except ε Unit} :
    (x >>= fun _ => y) = .ok () ↔ x = .ok () ∧ y = .ok () := by
  cases x <;> simp [bind, Except.bind]

theorem discard_eq_ok_iff {ε α : Type} {x : Except ε α} :
    discard x = .ok () ↔ ∃ a, x = .ok a := by
  cases x <;> simp [discard, Functor.discard, Functor.mapConst, Except.map]

theorem mapError_eq_ok_iff {ε ε' α : Type} {f : ε → ε'} {x : Except ε α} {a : α} :
    x.mapError f = .ok a ↔ x = .ok a := by
  cases x <;> simp [Except.mapError]

/-- A lookup whose failure is an error succeeds below the size. -/
theorem discard_lookup_eq_ok_iff {ε α : Type} {xs : Array α} {n : Nat}
    {x : Except ε α} (hsome : ∀ a, xs[n]? = some a → x = .ok a)
    (hnone : xs[n]? = none → ∃ e, x = .error e) :
    discard x = .ok () ↔ n < xs.size := by
  rw [discard_eq_ok_iff]
  constructor
  · rintro ⟨a, rfl⟩
    refine Nat.lt_of_not_le fun hle => ?_
    obtain ⟨e, he⟩ := hnone (Array.getElem?_eq_none hle)
    simp at he
  · intro hlt
    exact ⟨_, hsome _ (Array.getElem?_eq_getElem hlt)⟩

namespace Body

variable {b : Body} {returnsValue : Bool} {h : Handle} {i : Instruction Handle}

/-! ## §2  Well-formed bodies -/

/-- An instruction that is in order by itself: its operand suits its opcode, and
what it names exists. -/
structure Admits (b : Body) (i : Instruction Handle) : Prop where
  shape : i.op.shape = i.operand.shape
  targets : ∀ t ∈ i.targets, b.instructions.contains t = true
  slot : ∀ n, i.operand = .local n → n.toNat < b.locals.size

/-- What verification checks of a body besides its stack. -/
structure WellFormed (b : Body) : Prop where
  instructions : ∀ {h i}, b.instructions.get? h = some i → b.Admits i
  marks : ∀ x ∈ b.handlers, ∀ h ∈ x.marks, b.instructions.contains h = true
  last : ∃ h i, b.instructions.last? = some h ∧ b.instructions.get? h = some i ∧
    i.op.isTerminator = true

theorem WellFormed.isLinked (hb : b.WellFormed) : b.IsLinked :=
  ⟨fun hi => (hb.instructions hi).targets, hb.marks⟩

theorem checkInstruction_eq_ok_iff {p : Nat} :
    b.checkInstruction p i = .ok () ↔ b.Admits i := by
  have htargets : i.targets.find? (fun t => !b.instructions.contains t) = none ↔
      ∀ t ∈ i.targets, b.instructions.contains t = true := by
    simp
  have hslot : ∀ n, discard (StackTyping.localType b.locals p n) = .ok () ↔
      n.toNat < b.locals.size :=
    fun n => discard_lookup_eq_ok_iff (fun t ht => by rw [StackTyping.localType, ht])
      (fun hnone => ⟨_, by rw [StackTyping.localType, hnone]⟩)
  constructor
  · intro hok
    unfold checkInstruction at hok
    split at hok
    · simp at hok
    · rename_i hshape
      split at hok
      · simp at hok
      · rename_i hfind
        refine ⟨by simpa [Instruction.isWellFormed] using hshape,
          htargets.mp hfind, ?_⟩
        intro n hn
        simp only [hn] at hok
        exact (hslot n).mp hok
  · rintro ⟨hshape, hin, hlt⟩
    have hwell : i.isWellFormed = true := by
      simpa [Instruction.isWellFormed] using hshape
    simp only [checkInstruction, hwell, Bool.not_true, Bool.false_eq_true, if_false,
      htargets.mpr hin]
    split
    · rename_i n hn
      exact (hslot n).mpr (hlt n hn)
    · rfl

theorem checkHandler_eq_ok_iff {n : Nat} {x : ExceptionHandler Handle} :
    b.checkHandler n x = .ok () ↔
      ∀ h ∈ x.marks, b.instructions.contains h = true := by
  simp [checkHandler]

theorem mem_code : i ∈ b.instructions.code ↔ ∃ h, b.instructions.get? h = some i := by
  rw [← InstructionList.entries_map_snd, List.mem_map]
  constructor
  · rintro ⟨⟨h, _⟩, he, rfl⟩
    exact ⟨h, InstructionList.mem_entries.mp he⟩
  · rintro ⟨h, hi⟩
    exact ⟨(h, i), InstructionList.mem_entries.mpr hi, rfl⟩

/-! ## §3  Verification -/

theorem requiredStack_eq_ok_iff {required : UInt16} :
    b.requiredStack returnsValue = .ok required ↔
      ∃ n, b.peakDepth returnsValue = .ok n ∧
        required = UInt16.ofNat (min n (2 ^ 16 - 1)) := by
  rw [requiredStack]
  cases b.peakDepth returnsValue <;> simp [Except.map, eq_comm]

theorem consistent_iff_requiredStack :
    b.Consistent returnsValue ↔
      ∃ required, b.requiredStack returnsValue = .ok required := by
  simp only [requiredStack_eq_ok_iff]
  constructor
  · intro hcons
    obtain ⟨n, hn⟩ := hcons.exists_peakDepth
    exact ⟨_, n, hn, rfl⟩
  · rintro ⟨_, n, hn, -⟩
    exact (peakDepth_eq_ok_iff.mp hn).1

theorem checkStack_eq_ok_iff :
    b.checkStack returnsValue = .ok () ↔
      ∃ required, b.requiredStack returnsValue = .ok required ∧
        required ≤ b.maxStack := by
  rw [checkStack]
  cases b.requiredStack returnsValue with
  | error x => simp [bind, Except.bind]
  | ok required =>
      simp only [bind, Except.bind, Except.ok.injEq, exists_eq_left']
      split
      · rename_i hlt
        simp [UInt16.not_le.mpr hlt]
      · rename_i hge
        simp [UInt16.not_lt.mp hge]

/-- Verification accepts the well-formed bodies whose declared stack covers what
they need. -/
theorem verify_eq_ok_iff :
    b.verify returnsValue = .ok () ↔
      b.WellFormed ∧ ∃ required, b.requiredStack returnsValue = .ok required ∧
        required ≤ b.maxStack := by
  have hcode : (∀ i ∈ b.instructions.code, b.Admits i) ↔
      ∀ {h i}, b.instructions.get? h = some i → b.Admits i := by
    constructor
    · intro hall h i hi
      exact hall i (mem_code.mpr ⟨h, hi⟩)
    · intro hall i hi
      obtain ⟨h, hi⟩ := mem_code.mp hi
      exact hall hi
  have hinstructions :
      (b.instructions.code.zipIdx.forM fun x => b.checkInstruction x.2 x.1) = .ok () ↔
      ∀ i ∈ b.instructions.code, b.Admits i :=
    forM_zipIdx_eq_ok_iff fun _ _ => checkInstruction_eq_ok_iff
  have hhandlers : (b.handlers.zipIdx.forM fun x => b.checkHandler x.2 x.1) = .ok () ↔
      ∀ x ∈ b.handlers, ∀ h ∈ x.marks, b.instructions.contains h = true :=
    forM_zipIdx_eq_ok_iff fun _ _ => checkHandler_eq_ok_iff
  rw [verify]
  cases hlast : b.instructions.last?.bind b.instructions.get? with
  | none =>
      refine ⟨fun hok => by simp at hok, ?_⟩
      rintro ⟨hwell, -⟩
      obtain ⟨h, i, hh, hi, -⟩ := hwell.last
      rw [hh, Option.bind_some, hi] at hlast
      simp at hlast
  | some last =>
      obtain ⟨h, hh, hget⟩ := Option.bind_eq_some_iff.mp hlast
      have hend : b.checkEnd last = .ok () ↔ last.op.isTerminator = true := by
        simp [checkEnd]
      have hstack : b.checkStack returnsValue = .ok () ↔
          ∃ required, b.requiredStack returnsValue = .ok required ∧
            required ≤ b.maxStack :=
        checkStack_eq_ok_iff
      refine (seq_eq_ok_iff.trans
        (and_congr (hinstructions.trans hcode)
          (seq_eq_ok_iff.trans (and_congr hhandlers
            (seq_eq_ok_iff.trans (and_congr hend hstack)))))).trans ?_
      constructor
      · rintro ⟨hall, hmarks, hterm, hstack⟩
        exact ⟨⟨hall, hmarks, h, last, hh, hget, hterm⟩, hstack⟩
      · rintro ⟨⟨hall, hmarks, k, i, hk, hi, hterm⟩, hstack⟩
        obtain rfl : h = k := Option.some.inj (hh.symm.trans hk)
        obtain rfl : last = i := Option.some.inj (hget.symm.trans hi)
        exact ⟨hall, hmarks, hterm, hstack⟩

/-! ## §4  Safety -/

theorem WellFormed.exists_next (hb : b.WellFormed)
    (hi : b.instructions.get? h = some i) (hfall : i.op.isTerminator = false) :
    ∃ k, b.instructions.next? h = some k := by
  cases hnext : b.instructions.next? h with
  | some k => exact ⟨k, rfl⟩
  | none =>
      obtain ⟨k, j, hk, hj, hterm⟩ := hb.last
      rw [InstructionList.next?_eq_none_iff (InstructionList.contains_of_get? hi),
        ← InstructionList.last?_eq_getLast?, hk] at hnext
      obtain rfl : k = h := Option.some.inj hnext
      obtain rfl : j = i := Option.some.inj (hj.symm.trans hi)
      simp [hterm] at hfall

/-- Verification is sound: in a body that it accepts, every state that control
reaches stands at an instruction of the body whose operand suits its opcode and
whose local slot exists, that finds the values it takes, and that has an
instruction after it if it falls through; and no instruction is reached with two
depths. -/
theorem verify_safe (b : Body) (returnsValue : Bool)
    (hok : b.verify returnsValue = .ok ()) :
    (∀ s, b.Reachable returnsValue s → ∃ i e, b.instructions.get? s.handle = some i ∧
      i.op.shape = i.operand.shape ∧
      (∀ n, i.operand = .local n → n.toNat < b.locals.size) ∧
      i.effect returnsValue 0 = .ok e ∧ e.pops ≤ s.depth ∧
      (i.op.isTerminator = false → ∃ h, b.instructions.next? s.handle = some h)) ∧
    ∀ s t, b.Reachable returnsValue s → b.Reachable returnsValue t →
      s.handle = t.handle → s.depth = t.depth := by
  obtain ⟨hwell, required, hrequired, -⟩ := verify_eq_ok_iff.mp hok
  have hcons : b.Consistent returnsValue :=
    consistent_iff_requiredStack.mpr ⟨required, hrequired⟩
  refine ⟨?_, fun s t => hcons.depth⟩
  intro s hs
  obtain ⟨i, after, hget, e, he, hpops, -⟩ := hcons.performs hs
  have hadmits := hwell.instructions hget
  exact ⟨i, e, hget, hadmits.shape, hadmits.slot, he, hpops, hwell.exists_next hget⟩

def waiting : Body :=
  .ofInstructions (.ofList 1 [.ldarg 1, ⟨.brtrue, .target ⟨1, 0⟩⟩, ⟨.ret, .none⟩])

theorem verify_waiting : waiting.verify false = .ok () := by decide +kernel

theorem verify_safe_waiting :
    waiting.verify false = .ok () ∧
      ∀ s t, waiting.Reachable false s → waiting.Reachable false t →
        s.handle = t.handle → s.depth = t.depth :=
  ⟨verify_waiting, (verify_safe waiting false verify_waiting).2⟩

end Body

/-! ## §5  Methods and modules -/

theorem MethodDef.checkArg_eq_ok_iff {args : Array TypeSig} {p : Nat}
    {i : Instruction Handle} :
    checkArg args p i = .ok () ↔ ∀ n, i.operand = .arg n → n.toNat < args.size := by
  unfold checkArg
  split
  · rename_i n hn
    simp only [hn, Operand.arg.injEq, forall_eq']
    exact discard_lookup_eq_ok_iff (fun t ht => by rw [StackTyping.argType, ht])
      (fun hnone => ⟨_, by rw [StackTyping.argType, hnone]⟩)
  · rename_i hne
    exact ⟨fun _ n hn => (hne n hn).elim, fun _ => rfl⟩

/-- A method is accepted with a body that is, if it names no argument past its
last. -/
theorem MethodDef.verify_eq_ok_iff {β : Type} {m : MethodDef Body}
    {declaring : TypeDef β} :
    m.verify declaring = .ok () ↔
      ∀ b, m.body? = some b → b.verify m.returnsValue = .ok () ∧
        ∀ h i, b.instructions.get? h = some i → ∀ n, i.operand = .arg n →
          n.toNat < (if m.isStatic then 0 else 1) + m.params.length := by
  have hsize : (m.argTypes declaring).toArray.size =
      (if m.isStatic then 0 else 1) + m.params.length := by
    cases hstatic : m.isStatic <;> simp [argTypes, paramTypes, hstatic, Nat.add_comm]
  unfold verify
  split
  · rename_i hnone
    simp [hnone]
  · rename_i b hbody
    have hargs : (b.instructions.code.zipIdx.forM fun x =>
        checkArg (m.argTypes declaring).toArray x.2 x.1) = .ok () ↔
        ∀ i ∈ b.instructions.code, ∀ n, i.operand = .arg n →
          n.toNat < (if m.isStatic then 0 else 1) + m.params.length := by
      rw [← hsize]
      exact forM_zipIdx_eq_ok_iff fun _ _ => checkArg_eq_ok_iff
    have hall :
        (∀ i ∈ b.instructions.code, ∀ n, i.operand = .arg n →
          n.toNat < (if m.isStatic then 0 else 1) + m.params.length) ↔
        ∀ h i, b.instructions.get? h = some i → ∀ n, i.operand = .arg n →
          n.toNat < (if m.isStatic then 0 else 1) + m.params.length := by
      simp only [Body.mem_code]
      exact ⟨fun hall h i hi => hall i ⟨h, hi⟩, fun hall i ⟨h, hi⟩ => hall h i hi⟩
    rw [hbody]
    simp only [Option.some.injEq, forall_eq']
    exact mapError_eq_ok_iff.trans
      (seq_eq_ok_iff.trans (and_congr Iff.rfl (hargs.trans hall)))

theorem Module.verify_eq_ok_iff {home : Module Body} :
    home.verify = .ok () ↔
      ∀ t ∈ home.types, ∀ m ∈ t.methods, m.verify t = .ok () := by
  simp only [verify, forM_eq_ok_iff]

end Instrumentation
