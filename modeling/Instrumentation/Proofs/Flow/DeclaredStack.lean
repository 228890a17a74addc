import Instrumentation.Proofs.Flow.Verified

/-!
# The declared stack

A body declares the stack it needs in sixteen bits, and verification compares
what is declared with what the analysis finds, cut off at sixteen bits as well.
So a declaration below the greatest number of sixteen bits is a bound on every
depth that control reaches, and the greatest one is a bound exactly if the depth
itself fits in sixteen bits. A body that does little but push shows that it need
not fit.

Sections: §1 bounds · §2 verified bodies · §3 towers.
-/

namespace Instrumentation.Body

open InstructionList

variable {b : Body} {returnsValue : Bool} {n : Nat}

/-! ## §1  Bounds -/

/-- Every state that control reaches has at most this many values on the stack,
before its instruction and after it. -/
def StaysWithin (b : Body) (returnsValue : Bool) (bound : Nat) : Prop :=
  ∀ s i after, b.Reachable returnsValue s → b.Performs returnsValue s i after →
    s.depth ≤ bound ∧ after ≤ bound

/-- The greatest depth is the least bound. -/
theorem IsPeak.staysWithin_iff (hpeak : b.IsPeak returnsValue n) {bound : Nat} :
    b.StaysWithin returnsValue bound ↔ n ≤ bound := by
  constructor
  · intro hwithin
    rcases hpeak.attained with rfl | ⟨s, i, after, hs, hi, heq⟩
    · exact Nat.zero_le bound
    · have hle := hwithin s i after hs hi
      omega
  · intro hle s i after hs hi
    obtain ⟨hbefore, hafter⟩ := hpeak.bounds hs hi
    exact ⟨hbefore.trans hle, hafter.trans hle⟩

/-! ## §2  Verified bodies -/

theorem toNat_requiredStack {required : UInt16}
    (hpeak : b.peakDepth returnsValue = .ok n)
    (hrequired : b.requiredStack returnsValue = .ok required) :
    required.toNat = min n (UInt16.size - 1) := by
  obtain ⟨m, hm, rfl⟩ := requiredStack_eq_ok_iff.mp hrequired
  obtain rfl : n = m := Except.ok.inj (hpeak.symm.trans hm)
  have hlt : min n (2 ^ 16 - 1) < UInt16.size := by
    simp only [UInt16.size]
    omega
  rw [UInt16.toNat_ofNat_of_lt' hlt]
  rfl

/-- What a verified body declares covers its greatest depth as far as sixteen
bits go. -/
theorem exists_peakDepth_of_verify (hok : b.verify returnsValue = .ok ()) :
    ∃ n, b.peakDepth returnsValue = .ok n ∧
      min n (UInt16.size - 1) ≤ b.maxStack.toNat := by
  obtain ⟨-, required, hrequired, hle⟩ := verify_eq_ok_iff.mp hok
  obtain ⟨n, hn, -⟩ := requiredStack_eq_ok_iff.mp hrequired
  refine ⟨n, hn, ?_⟩
  rw [← toNat_requiredStack hn hrequired]
  exact UInt16.le_iff_toNat_le.mp hle

/-- The declared stack of a verified body bounds every depth that control
reaches if and only if the greatest of them fits in sixteen bits, as it does
wherever less than the utmost is declared. -/
theorem verify_bounds_stack_iff (b : Body) (returnsValue : Bool)
    (hok : b.verify returnsValue = .ok ()) :
    (b.StaysWithin returnsValue b.maxStack.toNat ↔
      ∃ n, b.peakDepth returnsValue = .ok n ∧ n < UInt16.size) ∧
    (b.maxStack.toNat + 1 < UInt16.size →
      b.StaysWithin returnsValue b.maxStack.toNat) := by
  obtain ⟨n, hn, hle⟩ := exists_peakDepth_of_verify hok
  have hpeak : b.IsPeak returnsValue n := (peakDepth_eq_ok_iff.mp hn).2
  have hdeclared : b.maxStack.toNat < UInt16.size := b.maxStack.toNat_lt
  rw [hpeak.staysWithin_iff]
  refine ⟨⟨?_, ?_⟩, ?_⟩
  · intro hbound
    exact ⟨n, hn, by omega⟩
  · rintro ⟨m, hm, hlt⟩
    obtain rfl : n = m := Except.ok.inj (hn.symm.trans hm)
    omega
  · intro hless
    omega

/-- What `waiting` declares is above the one value that its test takes. -/
theorem verify_bounds_stack_waiting :
    waiting.verify false = .ok () ∧ waiting.StaysWithin false 8 :=
  ⟨verify_waiting,
    (verify_bounds_stack_iff waiting false verify_waiting).2 (by decide)⟩

/-! ## §3  Towers -/

def towerCode (n : Nat) : List (Instruction Handle) :=
  List.replicate n ⟨.ldnull, .none⟩ ++ [⟨.throw, .none⟩]

/-- A body that piles up values and declares as many as sixteen bits can say. -/
def tower (n : Nat) : Body :=
  { Body.ofInstructions (.ofList 1 (towerCode n)) with
    maxStack := UInt16.ofNat (min n (UInt16.size - 1)) }

theorem length_towerCode : (towerCode n).length = n + 1 := by
  simp [towerCode]

theorem get?_tower {h : Handle} {i : Instruction Handle} :
    (tower n).instructions.get? h = some i ↔
      h.origin = 1 ∧ (h.index < n ∧ i = ⟨.ldnull, .none⟩ ∨
        h.index = n ∧ i = ⟨.throw, .none⟩) := by
  rw [show (tower n).instructions = .ofList 1 (towerCode n) from rfl, get?_ofList]
  by_cases horigin : h.origin = 1
  · rw [if_pos horigin, towerCode, List.getElem?_append, List.length_replicate]
    by_cases hlt : h.index < n
    · simp [horigin, hlt, Nat.ne_of_lt hlt, eq_comm]
    · rw [if_neg hlt, List.getElem?_singleton]
      by_cases heq : h.index = n
      · simp [horigin, heq, eq_comm]
      · simp [hlt, heq, show h.index - n ≠ 0 by omega]
  · simp [horigin]

theorem performs_tower {h : Handle} {d after : Nat} {i : Instruction Handle} :
    (tower n).Performs returnsValue ⟨h, d⟩ i after ↔
      h.origin = 1 ∧ (h.index < n ∧ i = ⟨.ldnull, .none⟩ ∧ after = d + 1 ∨
        h.index = n ∧ i = ⟨.throw, .none⟩ ∧ 1 ≤ d ∧ after = d - 1) := by
  rw [Performs, get?_tower]
  constructor
  · rintro ⟨⟨horigin, ⟨hlt, rfl⟩ | ⟨heq, rfl⟩⟩, e, he, hpops, rfl⟩
    · obtain rfl : ⟨0, 1⟩ = e := Except.ok.inj he
      exact ⟨horigin, .inl ⟨hlt, rfl, rfl⟩⟩
    · obtain rfl : ⟨1, 0⟩ = e := Except.ok.inj he
      exact ⟨horigin, .inr ⟨heq, rfl, hpops, rfl⟩⟩
  · rintro ⟨horigin, ⟨hlt, rfl, rfl⟩ | ⟨heq, rfl, hpops, rfl⟩⟩
    · exact ⟨⟨horigin, .inl ⟨hlt, rfl⟩⟩, ⟨0, 1⟩, rfl, Nat.zero_le d, rfl⟩
    · exact ⟨⟨horigin, .inr ⟨heq, rfl⟩⟩, ⟨1, 0⟩, rfl, hpops, rfl⟩

/-- Control climbs a tower value by value. -/
theorem reachable_tower_iff {s : FlowState} :
    (tower n).Reachable returnsValue s ↔ ∃ k ≤ n, s = ⟨⟨1, k⟩, k⟩ := by
  have hfirst : (tower n).instructions.first? = some ⟨1, 0⟩ := by
    rw [first?_eq_head?,
      show (tower n).instructions = .ofList 1 (towerCode n) from rfl,
      handles_ofList, length_towerCode, List.range_succ_eq_map]
    rfl
  have hnext : ∀ k < n, (tower n).instructions.next? ⟨1, k⟩ = some ⟨1, k + 1⟩ := by
    intro k hk
    rw [show (tower n).instructions = .ofList 1 (towerCode n) from rfl,
      next?_ofList (by rw [length_towerCode]; omega), length_towerCode,
      if_pos (by omega)]
  constructor
  · intro hreach
    induction hreach with
    | enters hs =>
        cases hs with
        | first hh =>
            obtain rfl := Option.some.inj (hfirst.symm.trans hh)
            exact ⟨0, Nat.zero_le n, rfl⟩
        | _ hx => exact absurd hx List.not_mem_nil
    | step _ hstep ih =>
        obtain ⟨k, hk, rfl⟩ := ih
        cases hstep with
        | next hi hfall hh =>
            rcases performs_tower.mp hi with ⟨-, ⟨hlt, rfl, rfl⟩ | ⟨-, rfl, -⟩⟩
            · obtain rfl := Option.some.inj ((hnext k hlt).symm.trans hh)
              exact ⟨k + 1, hlt, rfl⟩
            · exact absurd hfall (by decide)
        | jump hi _ _ hmem =>
            rcases performs_tower.mp hi with ⟨-, ⟨-, rfl, -⟩ | ⟨-, rfl, -⟩⟩
            · exact absurd hmem List.not_mem_nil
            · exact absurd hmem List.not_mem_nil
        | leave hi hop _ =>
            rcases performs_tower.mp hi with ⟨-, ⟨-, rfl, -⟩ | ⟨-, rfl, -⟩⟩
            · exact absurd hop (by decide)
            · exact absurd hop (by decide)
  · rintro ⟨k, hk, rfl⟩
    induction k with
    | zero => exact .enters (.first hfirst)
    | succ k ih =>
        have hpush : (tower n).Performs returnsValue ⟨⟨1, k⟩, k⟩
            ⟨.ldnull, .none⟩ (k + 1) :=
          performs_tower.mpr ⟨rfl, .inl ⟨hk, rfl, rfl⟩⟩
        exact (ih (Nat.le_of_succ_le hk)).step (.next hpush rfl (hnext k hk))

/-- The greatest depth of a tower is its height, if it has something to throw. -/
theorem peakDepth_tower (hn : 0 < n) : (tower n).peakDepth returnsValue = .ok n := by
  refine peakDepth_eq_ok_iff.mpr ⟨⟨?_, ?_⟩, ⟨?_, ?_⟩⟩
  · intro s hs
    obtain ⟨k, hk, rfl⟩ := reachable_tower_iff.mp hs
    rcases Nat.lt_or_eq_of_le hk with hlt | rfl
    · exact ⟨_, _, performs_tower.mpr ⟨rfl, .inl ⟨hlt, rfl, rfl⟩⟩⟩
    · exact ⟨_, _, performs_tower.mpr ⟨rfl, .inr ⟨rfl, rfl, hn, rfl⟩⟩⟩
  · intro s t hs ht hhandle
    obtain ⟨k, -, rfl⟩ := reachable_tower_iff.mp hs
    obtain ⟨k', -, rfl⟩ := reachable_tower_iff.mp ht
    exact congrArg Handle.index hhandle
  · intro s i after hs hi
    obtain ⟨k, hk, rfl⟩ := reachable_tower_iff.mp hs
    rcases performs_tower.mp hi with ⟨-, ⟨hlt, -, rfl⟩ | ⟨-, -, -, rfl⟩⟩
    · exact ⟨hk, hlt⟩
    · exact ⟨hk, (Nat.sub_le k 1).trans hk⟩
  · have htop : (tower n).Reachable returnsValue ⟨⟨1, n⟩, n⟩ :=
      reachable_tower_iff.mpr ⟨n, Nat.le_refl n, rfl⟩
    have hthrow : (tower n).Performs returnsValue ⟨⟨1, n⟩, n⟩
        ⟨.throw, .none⟩ (n - 1) :=
      performs_tower.mpr ⟨rfl, .inr ⟨rfl, rfl, hn, rfl⟩⟩
    exact .inr ⟨_, _, _, htop, hthrow, .inl rfl⟩

/-- Towers are verified, however high. -/
theorem verify_tower (hn : 0 < n) : (tower n).verify returnsValue = .ok () := by
  have hwell : (tower n).WellFormed := by
    refine ⟨?_, fun x hx => absurd hx List.not_mem_nil, ⟨1, n⟩,
      ⟨.throw, .none⟩, ?_, ?_, rfl⟩
    · intro h i hi
      rcases get?_tower.mp hi with ⟨-, ⟨-, rfl⟩ | ⟨-, rfl⟩⟩
      · exact ⟨rfl, by simp [Instruction.targets, Operand.targets], by simp⟩
      · exact ⟨rfl, by simp [Instruction.targets, Operand.targets], by simp⟩
    · rw [last?_eq_getLast?,
        show (tower n).instructions = .ofList 1 (towerCode n) from rfl,
        handles_ofList, length_towerCode, List.range_succ]
      simp
    · exact get?_tower.mpr ⟨rfl, .inr ⟨rfl, rfl⟩⟩
  refine verify_eq_ok_iff.mpr
    ⟨hwell, _, requiredStack_eq_ok_iff.mpr ⟨n, peakDepth_tower hn, rfl⟩, ?_⟩
  exact UInt16.le_refl _

/-- Not every verified body stays within what it declares. -/
theorem tower_exceeds_declared_stack :
    ¬ ∀ (b : Body) (returnsValue : Bool), b.verify returnsValue = .ok () →
      b.StaysWithin returnsValue b.maxStack.toNat := by
  intro halways
  have hwithin := halways (tower UInt16.size) false (verify_tower (by decide))
  have hdepth : (tower UInt16.size).peakDepth false = .ok UInt16.size :=
    peakDepth_tower (by decide)
  have hle := (peakDepth_eq_ok_iff.mp hdepth).2.staysWithin_iff.mp hwithin
  exact absurd (UInt16.toNat_lt _) (Nat.not_lt.mpr hle)

end Instrumentation.Body
