import Instrumentation.Proofs.Flow.Run
import Mathlib.Algebra.BigOperators.Intervals
import Mathlib.Algebra.Order.BigOperators.Group.Finset
import Mathlib.Data.Nat.Cast.Basic

/-!
# The stack analysis is exact

The analysis visits places until none is left to visit. What it keeps
throughout: the starts and the successors of every visited place are visited or
wait to be, every place it knows of is one that control reaches, and the
greatest depth is that of some visited place. When nothing waits any more the
visited places are therefore exactly the reachable ones; and a refusal names a
reachable place that is at fault. So the analysis accepts a body if and only if
control is consistent in it, whatever the order of visits.

A first visit uses up the edges of its instruction and every other visit a place
that was waiting, so the visits that the analysis is given always suffice.

Sections: §1 places · §2 one visit · §3 the invariant · §4 the end of the visits
· §5 the analysis.
-/

namespace Instrumentation

namespace Body

variable {b : Body} {returnsValue : Bool} {h k : Handle}

/-! ## §1  Places -/

theorem place_eq_at {p : Nat} :
    b.place h = .at p ↔ b.instructions.handles[p]? = some h := by
  rw [← InstructionList.position?_eq_some_iff, place]
  cases b.instructions.position? h <;> simp

theorem place_eq_outside :
    b.place h = .outside k ↔ h = k ∧ b.instructions.contains h = false := by
  have hnone :
      b.instructions.position? h = none ↔ b.instructions.contains h = false := by
    rw [Option.eq_none_iff_forall_ne_some, Bool.eq_false_iff, Ne,
      ← InstructionList.mem_handles, List.mem_iff_getElem?]
    simp [InstructionList.position?_eq_some_iff]
  rw [← hnone, place]
  cases b.instructions.position? h <;> simp

theorem place_injective (b : Body) : Function.Injective b.place := by
  intro h k heq
  cases hh : b.place h with
  | «at» p =>
      have hp := place_eq_at.mp hh
      have hq := place_eq_at.mp (heq ▸ hh)
      exact Option.some.inj (hp.symm.trans hq)
  | outside x =>
      have hk := (place_eq_outside.mp (heq ▸ hh)).1
      exact (place_eq_outside.mp hh).1.trans hk.symm

theorem code_getD {p : Nat} {i : Instruction Handle}
    (hp : b.instructions.handles[p]? = some h) (hi : b.instructions.get? h = some i) :
    b.instructions.code.toArray[p]?.getD default = i := by
  have hcode : b.instructions.code[p]? = some i := by
    rw [← InstructionList.getElem?_code hp, hi]
  simp [hcode]

theorem exists_place_eq_at {p : Nat} :
    (∃ h, b.place h = .at p) ↔ p < b.instructions.size := by
  simp [place_eq_at, List.getElem?_eq_some_iff, InstructionList.length_handles]

theorem first?_iff_place_eq : b.instructions.first? = some h ↔ b.place h = .at 0 := by
  rw [place_eq_at, InstructionList.first?_eq_head?, List.head?_eq_getElem?]

theorem next?_iff_place_eq {p : Nat} (hp : b.instructions.handles[p]? = some h) :
    b.instructions.next? h = some k ↔ b.place k = .at (p + 1) := by
  rw [place_eq_at, InstructionList.next?_of_getElem? hp]

/-- A place that the analysis goes to by its position stands for the instruction
there. -/
theorem lt_size_and_eq_at_iff {p d : Nat} {x : Place × Nat} :
    p < b.instructions.size ∧ x = (.at p, d) ↔
      ∃ h, b.place h = .at p ∧ (b.place h, d) = x := by
  rw [← exists_place_eq_at]
  constructor
  · rintro ⟨⟨h, hh⟩, rfl⟩
    exact ⟨h, hh, by rw [hh]⟩
  · rintro ⟨h, hh, rfl⟩
    exact ⟨⟨h, hh⟩, by rw [hh]⟩

/-- The entries of the analysis are the entries of the body. -/
theorem mem_starts {x : Place × Nat} :
    x ∈ b.starts ↔ ∃ s, b.Enters s ∧ (b.place s.handle, s.depth) = x := by
  have hfirst : x ∈ (if b.instructions.isEmpty then [] else [(Place.at 0, 0)]) ↔
      ∃ h, b.instructions.first? = some h ∧ (b.place h, 0) = x := by
    simp [first?_iff_place_eq, ← lt_size_and_eq_at_iff,
      InstructionList.isEmpty, Nat.pos_iff_ne_zero]
  rw [starts, List.mem_append, List.mem_flatMap, hfirst]
  constructor
  · rintro (⟨h, hh, rfl⟩ | ⟨y, hy, hx⟩)
    · exact ⟨⟨h, 0⟩, .first hh, rfl⟩
    · cases hkind : y.kind with
      | catches type =>
          simp only [hkind, HandlerKind.filterStart?, entryDepth, Option.map_none,
            Option.toList_none, List.mem_singleton] at hx
          exact ⟨⟨y.handlerStart, 1⟩, .catches hy hkind, hx.symm⟩
      | filter start =>
          simp only [hkind, HandlerKind.filterStart?, entryDepth, Option.map_some,
            Option.toList_some, List.mem_cons, List.not_mem_nil, or_false] at hx
          rcases hx with rfl | rfl
          · exact ⟨⟨y.handlerStart, 1⟩, .filtered hy hkind, rfl⟩
          · exact ⟨⟨start, 1⟩, .filter hy hkind, rfl⟩
      | finallyBlock =>
          simp only [hkind, HandlerKind.filterStart?, entryDepth, Option.map_none,
            Option.toList_none, List.mem_singleton] at hx
          exact ⟨⟨y.handlerStart, 0⟩, .finallyBlock hy hkind, hx.symm⟩
      | faultBlock =>
          simp only [hkind, HandlerKind.filterStart?, entryDepth, Option.map_none,
            Option.toList_none, List.mem_singleton] at hx
          exact ⟨⟨y.handlerStart, 0⟩, .faultBlock hy hkind, hx.symm⟩
  · rintro ⟨s, hs, rfl⟩
    cases hs with
    | first hh => exact .inl ⟨_, hh, rfl⟩
    | @catches y type hy hkind => exact .inr ⟨y, hy, by simp [hkind, entryDepth]⟩
    | @filtered y start hy hkind => exact .inr ⟨y, hy, by simp [hkind, entryDepth]⟩
    | @filter y start hy hkind =>
        exact .inr ⟨y, hy, by simp [hkind, HandlerKind.filterStart?]⟩
    | @finallyBlock y hy hkind => exact .inr ⟨y, hy, by simp [hkind, entryDepth]⟩
    | @faultBlock y hy hkind => exact .inr ⟨y, hy, by simp [hkind, entryDepth]⟩

/-- The successors of a place are the steps from it. -/
theorem mem_successors {p d after : Nat} {i : Instruction Handle} {x : Place × Nat}
    (hp : b.instructions.handles[p]? = some h)
    (hi : b.Performs returnsValue ⟨h, d⟩ i after) :
    x ∈ b.successors p i after ↔
      ∃ t, b.Step returnsValue ⟨h, d⟩ t ∧ (b.place t.handle, t.depth) = x := by
  have hnext : x ∈ (if i.op.isTerminator || b.instructions.size ≤ p + 1 then []
      else [(Place.at (p + 1), after)]) ↔
      i.op.isTerminator = false ∧ ∃ k, b.instructions.next? h = some k ∧
      (b.place k, after) = x := by
    simp [next?_iff_place_eq hp, ← lt_size_and_eq_at_iff, and_assoc]
  rw [successors, List.mem_append, hnext]
  constructor
  · rintro (hx | ⟨hterm, k, hk, rfl⟩)
    · split at hx
      · rename_i hfollows
        obtain ⟨t, ht, rfl⟩ := List.mem_map.mp hx
        by_cases hleave : i.op = .leave
        · exact ⟨⟨t, 0⟩, .leave hi hleave ht, by simp [Opcode.targetDepth, hleave]⟩
        · exact ⟨⟨t, after⟩, .jump hi hfollows hleave ht,
            by simp [Opcode.targetDepth, hleave]⟩
      · simp at hx
    · exact ⟨⟨k, after⟩, .next hi hterm hk, rfl⟩
  · rintro ⟨t, hstep, rfl⟩
    cases hstep with
    | next hi' hterm hk =>
        obtain ⟨rfl, rfl⟩ := hi.unique hi'
        exact .inr ⟨hterm, _, hk, rfl⟩
    | jump hi' hfollows hleave ht =>
        obtain ⟨rfl, rfl⟩ := hi.unique hi'
        left
        rw [if_pos hfollows, List.mem_map]
        exact ⟨_, ht, by simp [Opcode.targetDepth, hleave]⟩
    | leave hi' hleave ht =>
        obtain ⟨rfl, rfl⟩ := hi.unique hi'
        left
        rw [if_pos (by rw [hleave]; rfl), List.mem_map]
        exact ⟨_, ht, by simp [Opcode.targetDepth, hleave]⟩

/-! ## §2  One visit -/

def Exploration.Visited (s : Exploration) (p d : Nat) : Prop :=
  s.depths[p]?.join = some d

def Exploration.Known (s : Exploration) (x : Place × Nat) : Prop :=
  x ∈ s.work ∨ ∃ p, x.1 = .at p ∧ s.Visited p x.2

/-- A visit that goes well either finds its place visited with the same depth,
or enters the depth and leaves the successors waiting. -/
theorem visit_eq_ok {code : Array (Instruction Handle)} {place : Place} {d : Nat}
    {s s' : Exploration} (hok : visit b returnsValue code place d s = .ok s') :
    ∃ p, place = .at p ∧
      (s.Visited p d ∧ s' = s ∨
        s.depths[p]?.join = none ∧ ∃ i e after, code[p]?.getD default = i ∧
          i.effect returnsValue p = .ok e ∧ e.pops ≤ d ∧
          after = d - e.pops + e.pushes ∧
          s' = { work := (b.successors p i after).reverse ++ s.work
                 depths := s.depths.setIfInBounds p (some d)
                 peak := max s.peak (max d after) }) := by
  unfold visit at hok
  cases place with
  | outside h => simp at hok
  | «at» p =>
      refine ⟨p, rfl, ?_⟩
      cases hseen : s.depths[p]?.join with
      | some seen =>
          simp only [hseen] at hok
          split at hok
          · rename_i heq
            exact .inl ⟨heq ▸ hseen, (Except.ok.inj hok).symm⟩
          · simp at hok
      | none =>
          simp only [hseen] at hok
          split at hok
          · simp at hok
          · rename_i e he
            split at hok
            · simp at hok
            · rename_i hpops
              exact .inr ⟨rfl, _, e, _, rfl, he, Nat.le_of_not_lt hpops, rfl,
                (Except.ok.inj hok).symm⟩

/-- A visit is refused outside the body, where another depth was found before,
and where an instruction has no effect or too little on the stack. -/
theorem visit_eq_error {code : Array (Instruction Handle)}
    {place : Place} {d : Nat} {s : Exploration} {x : VerifyError}
    (herr : visit b returnsValue code place d s = .error x) :
    (∃ h, place = .outside h) ∨
      ∃ p, place = .at p ∧
        ((∃ seen, s.Visited p seen ∧ seen ≠ d) ∨
          ∀ e, (code[p]?.getD default).effect returnsValue p = .ok e →
            d < e.pops) := by
  unfold visit at herr
  cases place with
  | outside h => exact .inl ⟨h, rfl⟩
  | «at» p =>
      refine .inr ⟨p, rfl, ?_⟩
      cases hseen : s.depths[p]?.join with
      | some seen =>
          simp only [hseen] at herr
          split at herr
          · simp at herr
          · rename_i hne
            exact .inl ⟨seen, hseen, hne⟩
      | none =>
          right
          intro e he
          simp only [hseen, he] at herr
          split at herr
          · assumption
          · simp at herr

/-! ## §3  The invariant -/

/-- A place with a depth that control reaches. -/
def Arrives (b : Body) (returnsValue : Bool) (x : Place × Nat) : Prop :=
  ∃ h, b.place h = x.1 ∧ b.Reachable returnsValue ⟨h, x.2⟩

structure Explores (b : Body) (returnsValue : Bool) (s : Exploration) : Prop where
  size : s.depths.size = b.instructions.size
  starts : ∀ x ∈ b.starts, s.Known x
  closed : ∀ {p d}, s.Visited p d → ∃ h i after, b.instructions.handles[p]? = some h ∧
    b.Performs returnsValue ⟨h, d⟩ i after ∧
    (∀ x ∈ b.successors p i after, s.Known x) ∧
    d ≤ s.peak ∧ after ≤ s.peak
  sound : ∀ {x}, s.Known x → b.Arrives returnsValue x
  attained : s.peak = 0 ∨
    ∃ t i after, b.Reachable returnsValue t ∧ b.Performs returnsValue t i after ∧
      (s.peak = t.depth ∨ s.peak = after)

theorem visited_init {n p d : Nat} {work : List (Place × Nat)} {peak : Nat} :
    ¬ Exploration.Visited ⟨work, Array.replicate n none, peak⟩ p d := by
  simp only [Exploration.Visited, Array.getElem?_replicate]
  split <;> simp

theorem explores_init (b : Body) (returnsValue : Bool) :
    b.Explores returnsValue
      { work := b.starts.reverse, depths := Array.replicate b.instructions.size none,
        peak := 0 } where
  size := by simp
  starts := fun x hx => .inl (List.mem_reverse.mpr hx)
  closed := fun hv => absurd hv visited_init
  sound := by
    rintro x (hx | ⟨p, -, hv⟩)
    · obtain ⟨s, hs, rfl⟩ := mem_starts.mp (List.mem_reverse.mp hx)
      exact ⟨s.handle, rfl, .enters hs⟩
    · exact absurd hv visited_init
  attained := .inl rfl

/-- Depths after a first visit: the new one at its place, all others as before. -/
theorem visited_setIfInBounds {s : Exploration} {p d q e : Nat}
    {work : List (Place × Nat)} {peak : Nat} (hlt : p < s.depths.size)
    (hnew : s.depths[p]?.join = none) :
    Exploration.Visited ⟨work, s.depths.setIfInBounds p (some d), peak⟩ q e ↔
      (q = p ∧ e = d) ∨ s.Visited q e := by
  by_cases hq : q = p
  · subst hq
    simp only [Exploration.Visited, hnew, reduceCtorEq, or_false, true_and]
    simp [hlt, eq_comm]
  · simp [Exploration.Visited, Array.getElem?_setIfInBounds_ne (Ne.symm hq), hq]

/-- A place that was visited with the same depth has nothing to add. -/
theorem Explores.again {p d peak : Nat}
    {work : List (Place × Nat)} {depths : Array (Option Nat)}
    (hinv : b.Explores returnsValue ⟨(.at p, d) :: work, depths, peak⟩)
    (hv : Exploration.Visited ⟨work, depths, peak⟩ p d) :
    b.Explores returnsValue ⟨work, depths, peak⟩ := by
  -- what was known because it waited is known because it was visited
  have hknown : ∀ x, Exploration.Known ⟨(.at p, d) :: work, depths, peak⟩ x →
      Exploration.Known ⟨work, depths, peak⟩ x := by
    rintro x (hx | hx)
    · rcases List.mem_cons.mp hx with rfl | hx
      · exact .inr ⟨p, rfl, hv⟩
      · exact .inl hx
    · exact .inr hx
  refine ⟨hinv.size, fun x hx => hknown x (hinv.starts x hx), ?_, ?_, hinv.attained⟩
  · intro q f hq
    obtain ⟨h, i, after, hp, hi, hsucc, hle⟩ := hinv.closed hq
    exact ⟨h, i, after, hp, hi, fun x hx => hknown x (hsucc x hx), hle⟩
  · rintro x (hx | hx)
    · exact hinv.sound (.inl (List.mem_cons_of_mem _ hx))
    · exact hinv.sound (.inr hx)

/-- The place that is visited next is where control stands, at the depth it has
there. -/
theorem Explores.performs {p d e peak : Nat} {i : Instruction Handle}
    {work : List (Place × Nat)} {depths : Array (Option Nat)} {effect : StackEffect}
    (hinv : b.Explores returnsValue ⟨(.at p, d) :: work, depths, peak⟩)
    (hcode : b.instructions.code.toArray[p]?.getD default = i)
    (heffect : i.effect returnsValue p = .ok effect) (hpops : effect.pops ≤ d)
    (hafter : e = d - effect.pops + effect.pushes) :
    ∃ h, b.instructions.handles[p]? = some h ∧ b.place h = .at p ∧
      b.Reachable returnsValue ⟨h, d⟩ ∧
      b.Performs returnsValue ⟨h, d⟩ i e := by
  obtain ⟨h, hplace, hreach⟩ := hinv.sound (.inl List.mem_cons_self)
  have hp : b.instructions.handles[p]? = some h := place_eq_at.mp hplace
  obtain ⟨j, hj⟩ := InstructionList.contains_iff_get?.mp
    (InstructionList.mem_handles.mp (List.mem_of_getElem? hp))
  obtain rfl : j = i := (code_getD hp hj).symm.trans hcode
  exact ⟨h, hp, hplace, hreach, hj, effect, Instruction.effect_position 0 heffect,
    hpops, hafter⟩

/-- The greatest depth so far stays attained when an instruction is taken into
account. -/
theorem Explores.attained_max {s : Exploration} {t : FlowState}
    {i : Instruction Handle} {after : Nat} (hinv : b.Explores returnsValue s)
    (ht : b.Reachable returnsValue t)
    (hi : b.Performs returnsValue t i after) :
    ∃ t' i' after', b.Reachable returnsValue t' ∧
      b.Performs returnsValue t' i' after' ∧
      (max s.peak (max t.depth after) = t'.depth ∨
        max s.peak (max t.depth after) = after') := by
  by_cases hle : max t.depth after ≤ s.peak
  · rcases hinv.attained with hpeak | ⟨t', i', after', ht', hi', hpeak⟩
    · exact ⟨t, i, after, ht, hi, by omega⟩
    · exact ⟨t', i', after', ht', hi', by rwa [Nat.max_eq_left hle]⟩
  · exact ⟨t, i, after, ht, hi, by omega⟩

/-- A place that is visited for the first time enters its depth and leaves its
successors waiting. -/
theorem Explores.enter {p d after peak : Nat} {i : Instruction Handle}
    {effect : StackEffect} {work : List (Place × Nat)} {depths : Array (Option Nat)}
    (hinv : b.Explores returnsValue ⟨(.at p, d) :: work, depths, peak⟩)
    (hnew : depths[p]?.join = none)
    (hcode : b.instructions.code.toArray[p]?.getD default = i)
    (heffect : i.effect returnsValue p = .ok effect) (hpops : effect.pops ≤ d)
    (hafter : after = d - effect.pops + effect.pushes) :
    b.Explores returnsValue
      { work := (b.successors p i after).reverse ++ work
        depths := depths.setIfInBounds p (some d)
        peak := max peak (max d after) } := by
  obtain ⟨h, hp, hplace, hreach, hperforms⟩ :=
    hinv.performs hcode heffect hpops hafter
  have hlt : p < depths.size := by
    have hlength := (List.getElem?_eq_some_iff.mp hp).1
    rwa [InstructionList.length_handles, ← hinv.size] at hlength
  have hvisited := @visited_setIfInBounds ⟨work, depths, peak⟩ p d
  have hknown : ∀ x, Exploration.Known ⟨(.at p, d) :: work, depths, peak⟩ x →
      Exploration.Known
        ⟨(b.successors p i after).reverse ++ work, depths.setIfInBounds p (some d),
          max peak (max d after)⟩ x := by
    rintro x (hx | ⟨q, hq, hv⟩)
    · rcases List.mem_cons.mp hx with rfl | hx
      · exact .inr ⟨p, rfl, (hvisited hlt hnew).mpr (.inl ⟨rfl, rfl⟩)⟩
      · exact .inl (List.mem_append_right _ hx)
    · exact .inr ⟨q, hq, (hvisited hlt hnew).mpr (.inr hv)⟩
  refine ⟨by simpa using hinv.size, fun x hx => hknown x (hinv.starts x hx), ?_, ?_,
    .inr (hinv.attained_max hreach hperforms)⟩
  · intro q f hq
    rcases (hvisited hlt hnew).mp hq with ⟨rfl, rfl⟩ | hq
    · refine ⟨h, i, after, hp, hperforms, ?_, by simp, by simp⟩
      exact fun x hx => .inl (List.mem_append_left _ (List.mem_reverse.mpr hx))
    · obtain ⟨g, i', after', hg, hi', hsucc, hd, ha⟩ := hinv.closed hq
      refine ⟨g, i', after', hg, hi', fun x hx => hknown x (hsucc x hx), ?_, ?_⟩
      · exact hd.trans (Nat.le_max_left ..)
      · exact ha.trans (Nat.le_max_left ..)
  · rintro x (hx | ⟨q, hq, hv⟩)
    · rcases List.mem_append.mp hx with hx | hx
      · obtain ⟨t, hstep, rfl⟩ :=
          (mem_successors hp hperforms).mp (List.mem_reverse.mp hx)
        exact ⟨t.handle, rfl, .step hreach hstep⟩
      · exact hinv.sound (.inl (List.mem_cons_of_mem _ hx))
    · rcases (hvisited hlt hnew).mp hv with ⟨rfl, rfl⟩ | hv
      · exact ⟨h, hplace.trans hq.symm, hreach⟩
      · exact hinv.sound (.inr ⟨q, hq, hv⟩)

theorem Explores.visit {place : Place} {d peak : Nat} {work : List (Place × Nat)}
    {depths : Array (Option Nat)} {s' : Exploration}
    (hinv : b.Explores returnsValue ⟨(place, d) :: work, depths, peak⟩)
    (hok : b.visit returnsValue b.instructions.code.toArray place d
      ⟨work, depths, peak⟩ = .ok s') :
    b.Explores returnsValue s' := by
  obtain ⟨p, rfl, ⟨hv, rfl⟩ |
    ⟨hnew, i, e, after, hcode, heffect, hpops, hafter, rfl⟩⟩ := visit_eq_ok hok
  · exact hinv.again hv
  · exact hinv.enter hnew hcode heffect hpops hafter

/-! ## §4  The end of the visits -/

/-- With nothing left to visit, the places visited are the ones that control
reaches. -/
theorem Explores.finished {depths : Array (Option Nat)} {peak : Nat}
    (hinv : b.Explores returnsValue ⟨[], depths, peak⟩) :
    b.Consistent returnsValue ∧ b.IsPeak returnsValue peak := by
  have hknown : ∀ x, Exploration.Known ⟨[], depths, peak⟩ x →
      ∃ p, x.1 = .at p ∧ Exploration.Visited ⟨[], depths, peak⟩ p x.2 := by
    rintro x (hx | hx)
    · simp at hx
    · exact hx
  have hvisited : ∀ s, b.Reachable returnsValue s →
      ∃ p, b.place s.handle = .at p ∧
        Exploration.Visited ⟨[], depths, peak⟩ p s.depth := by
    intro s hs
    -- by induction on the way there: a visited place has its successors known,
    -- and known is visited now
    induction hs with
    | enters hs => exact hknown _ (hinv.starts _ (mem_starts.mpr ⟨_, hs, rfl⟩))
    | @step s t _ hstep ih =>
        obtain ⟨p, hplace, hv⟩ := ih
        obtain ⟨h, i, after, hp, hi, hsucc, -⟩ := hinv.closed hv
        have hh : h = s.handle :=
          Option.some.inj (hp.symm.trans (place_eq_at.mp hplace))
        subst hh
        exact hknown _ (hsucc _ ((mem_successors hp hi).mpr ⟨t, hstep, rfl⟩))
  have hclosed : ∀ s, b.Reachable returnsValue s →
      ∃ i after, b.Performs returnsValue s i after ∧
        s.depth ≤ peak ∧ after ≤ peak := by
    intro s hs
    obtain ⟨p, hplace, hv⟩ := hvisited s hs
    obtain ⟨h, i, after, hp, hi, -, hle⟩ := hinv.closed hv
    have hh : h = s.handle := Option.some.inj (hp.symm.trans (place_eq_at.mp hplace))
    subst hh
    exact ⟨i, after, hi, hle⟩
  refine ⟨⟨?_, ?_⟩, ⟨?_, hinv.attained⟩⟩
  · intro s hs
    obtain ⟨i, after, hi, -⟩ := hclosed s hs
    exact ⟨i, after, hi⟩
  · intro s t hs ht heq
    obtain ⟨p, hplace, hv⟩ := hvisited s hs
    obtain ⟨q, hplace', hv'⟩ := hvisited t ht
    obtain rfl : p = q := by
      rw [heq, hplace'] at hplace
      exact (Place.at.inj hplace).symm
    exact Option.some.inj (hv.symm.trans hv')
  · intro s i after hs hi
    obtain ⟨j, after', hj, hle⟩ := hclosed s hs
    obtain ⟨rfl, rfl⟩ := hi.unique hj
    exact hle

/-- A refusal names a reachable place that is at fault. -/
theorem Explores.refused {place : Place} {d peak : Nat} {work : List (Place × Nat)}
    {depths : Array (Option Nat)} {x : VerifyError}
    (hinv : b.Explores returnsValue ⟨(place, d) :: work, depths, peak⟩)
    (herr : b.visit returnsValue b.instructions.code.toArray place d
      ⟨work, depths, peak⟩ = .error x) :
    ¬ b.Consistent returnsValue := by
  intro hcons
  obtain ⟨h, hplace, hreach⟩ := hinv.sound (.inl List.mem_cons_self)
  obtain ⟨i, after, hi⟩ := hcons.performs hreach
  obtain ⟨hget, e, he, hpops, -⟩ := hi
  rcases visit_eq_error herr with ⟨k, rfl⟩ | ⟨p, rfl, ⟨seen, hseen, hne⟩ | hfault⟩
  · have hout := (place_eq_outside.mp hplace).2
    rw [InstructionList.contains_of_get? hget] at hout
    simp at hout
  · obtain ⟨g, hg, hreach'⟩ := hinv.sound (x := (.at p, seen)) (.inr ⟨p, rfl, hseen⟩)
    have hgh : g = h := b.place_injective (hg.trans hplace.symm)
    exact hne (hcons.depth hreach' hreach hgh)
  · have hcode := code_getD (place_eq_at.mp hplace) hget
    have := hfault e (hcode ▸ Instruction.effect_position p he)
    simp only at hpops
    omega

theorem explore_ok {fuel n : Nat} : ∀ {s : Exploration}, b.Explores returnsValue s →
    b.explore returnsValue b.instructions.code.toArray fuel s = some (.ok n) →
    ∃ depths, b.Explores returnsValue ⟨[], depths, n⟩ := by
  -- by induction on the fuel, which the exploration uses up visit by visit;
  -- `Explores` is carried along
  induction fuel with
  | zero =>
      rintro ⟨_ | ⟨x, work⟩, depths, peak⟩ hinv hok
      · obtain rfl : peak = n := by simpa [explore] using hok
        exact ⟨depths, hinv⟩
      · simp [explore] at hok
  | succ fuel ih =>
      rintro ⟨_ | ⟨⟨place, d⟩, work⟩, depths, peak⟩ hinv hok
      · obtain rfl : peak = n := by simpa [explore] using hok
        exact ⟨depths, hinv⟩
      · rw [explore] at hok
        split at hok
        · simp at hok
        · rename_i s' hvisit
          exact ih (hinv.visit hvisit) hok

theorem explore_error {fuel : Nat} {x : VerifyError} :
    ∀ {s : Exploration}, b.Explores returnsValue s →
    b.explore returnsValue b.instructions.code.toArray fuel s = some (.error x) →
    ¬ b.Consistent returnsValue := by
  induction fuel with
  | zero =>
      rintro ⟨_ | ⟨y, work⟩, depths, peak⟩ hinv herr
      · simp [explore] at herr
      · simp [explore] at herr
  | succ fuel ih =>
      rintro ⟨_ | ⟨⟨place, d⟩, work⟩, depths, peak⟩ hinv herr
      · simp [explore] at herr
      · rw [explore] at herr
        split at herr
        · rename_i hvisit
          exact hinv.refused hvisit
        · rename_i s' hvisit
          exact ih (hinv.visit hvisit) herr

def edgesAt (b : Body) (p : Nat) : Nat :=
  (b.successors p (b.instructions.code.toArray[p]?.getD default) 0).length

/-- The edges that leave the places not yet visited. -/
def pending (b : Body) (depths : Array (Option Nat)) : Nat :=
  ∑ p ∈ Finset.range b.instructions.size,
    if depths[p]?.join = none then b.edgesAt p else 0

theorem length_successors (b : Body) (p after : Nat) (i : Instruction Handle) :
    (b.successors p i after).length = (b.successors p i 0).length := by
  simp only [successors, List.length_append]
  congr 1
  · split <;> simp
  · split <;> simp

theorem pending_setIfInBounds {p d : Nat} {depths : Array (Option Nat)}
    (hsize : depths.size = b.instructions.size) (hlt : p < b.instructions.size)
    (hnew : depths[p]?.join = none) :
    b.pending depths = b.edgesAt p + b.pending (depths.setIfInBounds p (some d)) := by
  have hmem : p ∈ Finset.range b.instructions.size := Finset.mem_range.mpr hlt
  rw [pending, pending, ← Finset.add_sum_erase _ _ hmem,
    ← Finset.add_sum_erase _ _ hmem, if_pos hnew]
  have hrest : ∀ q ∈ (Finset.range b.instructions.size).erase p,
      (if depths[q]?.join = none then b.edgesAt q else 0) =
        if (depths.setIfInBounds p (some d))[q]?.join = none then b.edgesAt q
        else 0 := by
    intro q hq
    rw [Array.getElem?_setIfInBounds_ne (Ne.symm (Finset.ne_of_mem_erase hq))]
  rw [Finset.sum_congr rfl hrest]
  simp [hsize, hlt]

/-- A first visit uses up the edges of its instruction, any other a place that
was waiting. -/
theorem Explores.fewer {place : Place} {d peak : Nat} {work : List (Place × Nat)}
    {depths : Array (Option Nat)} {s' : Exploration}
    (hinv : b.Explores returnsValue ⟨(place, d) :: work, depths, peak⟩)
    (hok : b.visit returnsValue b.instructions.code.toArray place d
      ⟨work, depths, peak⟩ = .ok s') :
    s'.work.length + b.pending s'.depths = work.length + b.pending depths := by
  obtain ⟨p, rfl, ⟨-, rfl⟩ | ⟨hnew, i, e, after, hcode, -, -, -, rfl⟩⟩ :=
    visit_eq_ok hok
  · rfl
  · obtain ⟨h, hplace, -⟩ := hinv.sound (.inl List.mem_cons_self)
    have hlt := (List.getElem?_eq_some_iff.mp (place_eq_at.mp hplace)).1
    rw [InstructionList.length_handles] at hlt
    have hedges : (b.successors p i after).length = b.edgesAt p := by
      rw [edgesAt, hcode, length_successors]
    have hsplit : b.pending depths =
        b.edgesAt p + b.pending (depths.setIfInBounds p (some d)) :=
      pending_setIfInBounds hinv.size hlt hnew
    simp only [List.length_append, List.length_reverse]
    omega

theorem explore_ne_none {fuel : Nat} :
    ∀ {s : Exploration}, b.Explores returnsValue s →
    s.work.length + b.pending s.depths ≤ fuel →
    b.explore returnsValue b.instructions.code.toArray fuel s ≠ none := by
  -- a visit takes one place off, so the sum stays within the fuel that is left
  induction fuel with
  | zero =>
      rintro ⟨_ | ⟨y, work⟩, depths, peak⟩ hinv hle
      · simp [explore]
      · simp at hle
  | succ fuel ih =>
      rintro ⟨_ | ⟨⟨place, d⟩, work⟩, depths, peak⟩ hinv hle
      · simp [explore]
      · rw [explore]
        split
        · simp
        · rename_i s' hvisit
          refine ih (hinv.visit hvisit) ?_
          have hfewer := hinv.fewer hvisit
          simp only [List.length_cons] at hle
          omega

/-! ## §5  The analysis -/

theorem sum_range_getD {α : Type} (g : α → Nat) (a : α) :
    ∀ xs : List α, ∑ p ∈ Finset.range xs.length, g (xs[p]?.getD a) = (xs.map g).sum
  | [] => by simp
  | x :: xs => by
      rw [List.length_cons, Finset.sum_range_succ', List.map_cons, List.sum_cons]
      simp [sum_range_getD g a xs, Nat.add_comm]

/-- From an instruction control goes to its targets at most, and on to the next
one if there is one and the flow does not end. -/
theorem edgesAt_le (b : Body) (p : Nat) :
    b.edgesAt p ≤
      (b.instructions.code[p]?.getD default).targets.length +
        if (b.instructions.code[p]?.getD default).op.isTerminator ||
            b.instructions.code.length ≤ p + 1 then 0 else 1 := by
  have hcode : b.instructions.code.toArray[p]?.getD default =
      b.instructions.code[p]?.getD default := by simp
  rw [edgesAt, hcode, successors, List.length_append, InstructionList.length_code]
  gcongr
  · split <;> simp
  · split <;> simp

theorem pending_le_sum (b : Body) (depths : Array (Option Nat)) :
    b.pending depths ≤
      ∑ p ∈ Finset.range b.instructions.code.length, b.edgesAt p := by
  rw [pending, InstructionList.length_code]
  refine Finset.sum_le_sum fun p _ => ?_
  split <;> simp

/-- All edges together are as many as the analysis allows for, or fewer. -/
theorem pending_le_edgeCount (b : Body) (depths : Array (Option Nat)) :
    b.pending depths ≤ b.edgeCount := by
  have hedge : ∀ p, b.edgesAt p ≤
      (b.instructions.code[p]?.getD default).targets.length + 1 := by
    refine fun p => (b.edgesAt_le p).trans ?_
    gcongr
    split <;> simp
  calc b.pending depths
      ≤ ∑ p ∈ Finset.range b.instructions.code.length, b.edgesAt p :=
        b.pending_le_sum depths
    _ ≤ ∑ p ∈ Finset.range b.instructions.code.length,
          ((b.instructions.code[p]?.getD default).targets.length + 1) :=
        Finset.sum_le_sum fun p _ => hedge p
    _ = (b.instructions.code.map fun i => i.targets.length + 1).sum :=
        sum_range_getD (fun i : Instruction Handle => i.targets.length + 1) default _
    _ = b.edgeCount := by
        rw [edgeCount, List.length_flatMap, List.sum_map_add,
          ← InstructionList.length_code]
        simp

/-- The visits that the analysis is given are enough for it to come to an answer. -/
theorem peakDepth_eq (b : Body) (returnsValue : Bool) :
    b.explore returnsValue b.instructions.code.toArray (b.starts.length + b.edgeCount)
        { work := b.starts.reverse,
          depths := Array.replicate b.instructions.size none, peak := 0 } =
      some (b.peakDepth returnsValue) := by
  have hfuel :
      b.starts.reverse.length + b.pending (Array.replicate b.instructions.size none) ≤
        b.starts.length + b.edgeCount := by
    rw [List.length_reverse]
    exact Nat.add_le_add_left (b.pending_le_edgeCount _) _
  have hsome := explore_ne_none (explores_init b returnsValue) hfuel
  obtain ⟨answer, hanswer⟩ := Option.ne_none_iff_exists'.mp hsome
  rw [peakDepth, hanswer]
  rfl

/-- Where control is consistent the analysis has no reason to refuse. -/
theorem Consistent.exists_peakDepth (hcons : b.Consistent returnsValue) :
    ∃ n, b.peakDepth returnsValue = .ok n := by
  cases hanswer : b.peakDepth returnsValue with
  | error x =>
      have heq := peakDepth_eq b returnsValue
      rw [hanswer] at heq
      exact absurd hcons (explore_error (explores_init b returnsValue) heq)
  | ok n => exact ⟨n, rfl⟩

/-- The analysis accepts a body exactly if control is consistent in it, and
answers with the greatest depth. -/
theorem peakDepth_eq_ok_iff {n : Nat} :
    b.peakDepth returnsValue = .ok n ↔
      b.Consistent returnsValue ∧ b.IsPeak returnsValue n := by
  have hfinished : ∀ {m}, b.peakDepth returnsValue = .ok m →
      b.Consistent returnsValue ∧ b.IsPeak returnsValue m := by
    intro m hok
    have heq := peakDepth_eq b returnsValue
    rw [hok] at heq
    obtain ⟨depths, hinv⟩ := explore_ok (explores_init b returnsValue) heq
    exact hinv.finished
  constructor
  · exact hfinished
  · rintro ⟨hcons, hpeak⟩
    obtain ⟨m, hm⟩ := hcons.exists_peakDepth
    rw [hm, (hfinished hm).2.unique hpeak]

theorem explore_congr {b c : Body} (hi : c.instructions = b.instructions)
    (returnsValue : Bool) (code : Array (Instruction Handle)) (fuel : Nat)
    (s : Exploration) :
    explore c returnsValue code fuel s = explore b returnsValue code fuel s := by
  have hsuccessors : c.successors = b.successors := by
    funext p i after
    simp only [successors, place, hi]
  have hvisit : visit c = visit b := by
    funext rv code place depth s
    simp only [visit, hsuccessors]
  induction fuel generalizing s with
  | zero => obtain ⟨_ | ⟨e, work⟩, depths, peak⟩ := s <;> simp [explore]
  | succ fuel ih =>
      obtain ⟨_ | ⟨e, work⟩, depths, peak⟩ := s
      · simp [explore]
      · simp only [explore, hvisit, ih]

/-- The analysis reads the instructions and the handlers of a body and nothing
else. -/
theorem peakDepth_congr {b c : Body} (hi : c.instructions = b.instructions)
    (hh : c.handlers = b.handlers) (returnsValue : Bool) :
    c.peakDepth returnsValue = b.peakDepth returnsValue := by
  have hstarts : c.starts = b.starts := by
    have hplace : c.place = b.place := by
      funext h
      simp only [place, hi]
    simp only [starts, hplace, hi, hh]
  have hedges : c.edgeCount = b.edgeCount := by
    simp only [edgeCount, hi]
  simp only [peakDepth, explore_congr hi, hstarts, hedges, hi]

end Body

end Instrumentation
