import Instrumentation.Proofs.Flow.Exploration

/-!
# The stack analysis ends

The places that wait to be visited grow in number while they are visited, and
one place may wait many times, with equal depths or different ones. Still every
round of the analysis uses something up: the place that it takes off, and the
first time at a position also the edges that lead on from there, of which each
puts one place back. So there are never more rounds than starts and edges
together, whatever a body jumps to, and however often.

An instruction is expanded at most once, because its depth is entered then and
stays.

Sections: §1 rounds · §2 what a round uses up · §3 starts and edges · §4 the end.
-/

namespace Instrumentation

namespace Body

variable {b : Body} {returnsValue : Bool} {s t : Exploration} {place : Place}

/-! ## §1  Rounds -/

def Exploration.depth? (s : Exploration) : Place → Option Nat
  | .at p => s.depths[p]?.join
  | .outside _ => none

/-- The place that comes up for the first time, if that is what the next round
is about. -/
def Exploration.expands? (s : Exploration) : Option Place :=
  match s.work with
  | (place, _) :: _ => if s.depth? place = none then some place else none
  | [] => none

theorem Exploration.of_expands? (h : s.expands? = some place) :
    s.depth? place = none ∧ ∃ d work, s.work = (place, d) :: work := by
  unfold expands? at h
  split at h
  · rename_i d work hwork
    obtain ⟨hnone, hplace⟩ := Option.ite_none_right_eq_some.mp h
    obtain rfl := Option.some.inj hplace
    exact ⟨hnone, d, work, hwork⟩
  · cases h

def outset (b : Body) : Exploration :=
  { work := b.starts.reverse, depths := Array.replicate b.instructions.size none,
    peak := 0 }

/-- A round that is not refused: the next place is taken off and visited. -/
inductive Round (b : Body) (returnsValue : Bool) : Exploration → Exploration → Prop
  | visit {place : Place} {d peak : Nat} {work : List (Place × Nat)}
      {depths : Array (Option Nat)} {t : Exploration} :
      b.visit returnsValue b.instructions.code.toArray place d ⟨work, depths, peak⟩ =
        .ok t →
      Round b returnsValue ⟨(place, d) :: work, depths, peak⟩ t

/-- What the analysis goes through from its outset on, for as long as one looks. -/
def IsAnalysis (b : Body) (returnsValue : Bool) (run : List Exploration) : Prop :=
  (∀ s ∈ run.head?, s = b.outset) ∧ run.IsChain (b.Round returnsValue)

theorem Round.explores (hround : b.Round returnsValue s t)
    (hs : b.Explores returnsValue s) : b.Explores returnsValue t := by
  cases hround with
  | visit hok => exact hs.visit hok

/-! ## §2  What a round uses up -/

/-- What is left to use up: the places that wait, and the edges from the
positions not yet expanded. -/
def potential (b : Body) (s : Exploration) : Nat := s.work.length + b.pending s.depths

theorem Round.potential (hround : b.Round returnsValue s t)
    (hs : b.Explores returnsValue s) : b.potential t + 1 = b.potential s := by
  cases hround with
  | visit hok =>
    have hfewer := hs.fewer hok
    simp only [Body.potential, List.length_cons]
    omega

/-- A depth that was found stays. -/
theorem Round.depth?_eq_none (hround : b.Round returnsValue s t)
    (hnone : t.depth? place = none) : s.depth? place = none := by
  cases hround with
  | visit hok =>
    obtain ⟨p, rfl, ⟨-, rfl⟩ | ⟨hnew, i, e, after, -, -, -, -, rfl⟩⟩ :=
      visit_eq_ok hok
    · exact hnone
    · cases place with
      | outside h => rfl
      | «at» q =>
        by_cases hq : q = p
        · exact hq ▸ hnew
        · simpa [Exploration.depth?, Array.getElem?_setIfInBounds_ne (Ne.symm hq)]
            using hnone

/-- The round that expands a place finds a depth for it. -/
theorem Round.expands? (hround : b.Round returnsValue s t)
    (hs : b.Explores returnsValue s) (hplace : s.expands? = some place) :
    t.depth? place ≠ none := by
  obtain ⟨hnew, d, work, hwork⟩ := Exploration.of_expands? hplace
  cases hround with
  | visit hok =>
    cases hwork
    obtain ⟨h, hh, -⟩ := hs.sound (.inl List.mem_cons_self)
    obtain ⟨p, rfl, ⟨hseen, -⟩ | ⟨-, i, e, after, -, -, -, -, rfl⟩⟩ := visit_eq_ok hok
    · exact absurd (hnew.symm.trans hseen) nofun
    · have hlt := (List.getElem?_eq_some_iff.mp (place_eq_at.mp hh)).1
      rw [InstructionList.length_handles, ← hs.size] at hlt
      simp [Exploration.depth?, hlt]

/-- Rounds one after the other use up what was left at the first of them. -/
theorem length_of_rounds {run : List Exploration} (hs : b.Explores returnsValue s)
    (hchain : (s :: run).IsChain (b.Round returnsValue)) :
    run.length ≤ b.potential s := by
  induction run generalizing s with
  | nil => exact Nat.zero_le _
  | cons t run ih =>
    obtain ⟨hround, hrest⟩ := List.isChain_cons_cons.mp hchain
    have hlater := ih (hround.explores hs) hrest
    have hless := hround.potential hs
    rw [List.length_cons]
    omega

/-- Rounds one after the other expand no place twice, and none that had its
depth before. -/
theorem nodup_expands?_of_rounds {run : List Exploration}
    (hs : b.Explores returnsValue s)
    (hchain : (s :: run).IsChain (b.Round returnsValue)) :
    ((s :: run).filterMap (·.expands?)).Nodup ∧
      ∀ place ∈ (s :: run).filterMap (·.expands?), s.depth? place = none := by
  induction run generalizing s with
  | nil =>
    rw [List.filterMap_cons]
    split
    · simp
    · rename_i place hplace
      simpa using (Exploration.of_expands? hplace).1
  | cons t run ih =>
    obtain ⟨hround, hrest⟩ := List.isChain_cons_cons.mp hchain
    obtain ⟨hnodup, hnone⟩ := ih (hround.explores hs) hrest
    have hbefore :
        ∀ place ∈ (t :: run).filterMap (·.expands?), s.depth? place = none :=
      fun place hplace => hround.depth?_eq_none (hnone place hplace)
    rw [List.filterMap_cons]
    split
    · exact ⟨hnodup, hbefore⟩
    · rename_i place hplace
      refine ⟨List.nodup_cons.mpr ⟨fun hagain => ?_, hnodup⟩,
        List.forall_mem_cons.mpr ⟨?_, hbefore⟩⟩
      · exact hround.expands? hs hplace (hnone place hagain)
      · exact (Exploration.of_expands? hplace).1

/-! ## §3  Starts and edges -/

/-- How many places the analysis starts from: the first instruction, if there is
one, every handler's block and every filter's block. -/
def startCount (b : Body) : Nat :=
  (if b.instructions.isEmpty then 0 else 1) + b.handlers.length
    + b.handlers.countP (·.kind.filterStart?.isSome)

def targetCount (b : Body) : Nat := (b.instructions.code.map (·.targets.length)).sum

def fallCount (b : Body) : Nat :=
  b.instructions.code.dropLast.countP fun i => !i.op.isTerminator

theorem length_starts (b : Body) : b.starts.length = b.startCount := by
  have hblocks : ∀ handlers : List (ExceptionHandler Handle),
      (handlers.flatMap fun h => (b.place h.handlerStart, entryDepth h.kind)
        :: (h.kind.filterStart?.map fun s => (b.place s, 1)).toList).length =
      handlers.length + handlers.countP (·.kind.filterStart?.isSome) := by
    intro handlers
    induction handlers with
    | nil => rfl
    | cons h handlers ih =>
      rw [List.flatMap_cons, List.length_append, ih,
        List.length_cons, List.countP_cons]
      cases h.kind.filterStart? <;> simp <;> omega
  rw [starts, List.length_append, hblocks, startCount, Nat.add_assoc]
  split <;> rfl

theorem sum_continuing (code : List (Instruction Handle)) :
    (code.map fun i => if i.op.isTerminator then 0 else 1).sum =
      code.countP fun i => !i.op.isTerminator := by
  induction code with
  | nil => rfl
  | cons i code ih =>
    rw [List.map_cons, List.sum_cons, ih, List.countP_cons, Nat.add_comm]
    cases i.op.isTerminator <;> rfl

/-- By position: whatever stands last, there is nothing for it to go on to. -/
theorem sum_falls (code : List (Instruction Handle)) :
    ∑ p ∈ Finset.range code.length,
        (if (code[p]?.getD default).op.isTerminator ||
            code.length ≤ p + 1 then 0 else 1) =
      code.dropLast.countP fun i => !i.op.isTerminator := by
  rcases List.eq_nil_or_concat' code with rfl | ⟨front, last, rfl⟩
  · rfl
  have hfront : ∀ p ∈ Finset.range front.length,
      (if ((front ++ [last])[p]?.getD default).op.isTerminator ||
          front.length + 1 ≤ p + 1 then 0 else 1) =
        if (front[p]?.getD default).op.isTerminator then 0 else 1 := by
    intro p hp
    have hlt : p < front.length := Finset.mem_range.mp hp
    have hmore : ¬ front.length + 1 ≤ p + 1 := by omega
    simp only [List.getElem?_append_left hlt, hmore, decide_false, Bool.or_false]
  rw [List.dropLast_concat, List.length_append, List.length_singleton,
    Finset.sum_range_succ, Finset.sum_congr rfl hfront,
    sum_range_getD (fun i : Instruction Handle => if i.op.isTerminator then 0 else 1)
    default, sum_continuing]
  simp

/-- No more edges are ever left than there are. -/
theorem pending_le (b : Body) (depths : Array (Option Nat)) :
    b.pending depths ≤ b.targetCount + b.fallCount :=
  calc b.pending depths
      ≤ ∑ p ∈ Finset.range b.instructions.code.length, b.edgesAt p :=
        b.pending_le_sum depths
    _ ≤ ∑ p ∈ Finset.range b.instructions.code.length,
          ((b.instructions.code[p]?.getD default).targets.length +
            if (b.instructions.code[p]?.getD default).op.isTerminator ||
                b.instructions.code.length ≤ p + 1 then 0 else 1) :=
        Finset.sum_le_sum fun p _ => b.edgesAt_le p
    _ = b.targetCount + b.fallCount := by
        rw [Finset.sum_add_distrib, sum_falls,
          sum_range_getD (fun i : Instruction Handle => i.targets.length) default]
        rfl

/-! ## §4  The end -/

/-- An answer is the same with more rounds. -/
theorem explore_of_le {code : Array (Instruction Handle)} {rounds more : Nat}
    {answer : Except VerifyError Nat} (hle : rounds ≤ more)
    (hanswer : b.explore returnsValue code rounds s = some answer) :
    b.explore returnsValue code more s = some answer := by
  induction rounds generalizing s more with
  | zero =>
    obtain ⟨_ | ⟨next, work⟩, depths, peak⟩ := s
    · cases more <;> exact hanswer
    · cases hanswer
  | succ rounds ih =>
    obtain ⟨_ | ⟨⟨place, d⟩, work⟩, depths, peak⟩ := s
    · cases more <;> exact hanswer
    · cases more with
      | zero => exact absurd hle (Nat.not_succ_le_zero rounds)
      | succ more =>
        rw [explore] at hanswer ⊢
        split at hanswer
        · exact hanswer
        · exact ih (Nat.le_of_succ_le_succ hle) hanswer

theorem potential_outset_le (b : Body) :
    b.potential b.outset ≤ b.startCount + (b.targetCount + b.fallCount) := by
  have hstarts : b.outset.work.length = b.startCount := by
    rw [outset, List.length_reverse, length_starts]
  rw [potential, hstarts]
  exact Nat.add_le_add_left (b.pending_le _) _

/-- The analysis of any body ends: it goes through no more rounds than there are
starts and edges, expands no place twice on the way, and with that many rounds
it has the answer that it has with any more. -/
theorem analysis_ends (b : Body) (returnsValue : Bool) :
    (∀ run, b.IsAnalysis returnsValue run →
      run.length ≤ b.startCount + (b.targetCount + b.fallCount) + 1 ∧
      (run.filterMap (·.expands?)).Nodup) ∧
    ∀ rounds ≥ b.startCount + (b.targetCount + b.fallCount),
      b.explore returnsValue b.instructions.code.toArray rounds b.outset =
        some (b.peakDepth returnsValue) := by
  have hinit : b.Explores returnsValue b.outset := explores_init b returnsValue
  have hbound := b.potential_outset_le
  refine ⟨?_, fun rounds hrounds => ?_⟩
  · rintro (_ | ⟨s, run⟩) ⟨hhead, hchain⟩
    · simp
    · obtain rfl := hhead s rfl
      refine ⟨?_, (nodup_expands?_of_rounds hinit hchain).1⟩
      have hlength := length_of_rounds hinit hchain
      rw [List.length_cons]
      omega
  · have hsome :
        b.explore returnsValue b.instructions.code.toArray rounds b.outset ≠ none :=
      explore_ne_none hinit (hbound.trans hrounds)
    obtain ⟨answer, hanswer⟩ := Option.ne_none_iff_exists'.mp hsome
    -- with all the rounds of both it has either answer
    have hown :=
      explore_of_le (Nat.le_add_right _ rounds) (peakDepth_eq b returnsValue)
    have hmore :=
      explore_of_le (Nat.le_add_left rounds (b.starts.length + b.edgeCount)) hanswer
    exact hanswer.trans (hmore.symm.trans hown)

def circling : Body :=
  ofInstructions (.ofList 1 [⟨.nop, .none⟩, ⟨.br, .target ⟨1, 0⟩⟩])

/-- All that the analysis goes through for them: each comes up for the first
time once, and then the jump comes back. -/
def circlingRounds : List Exploration :=
  [⟨[(.at 0, 0)], #[none, none], 0⟩, ⟨[(.at 1, 0)], #[some 0, none], 0⟩,
    ⟨[(.at 0, 0)], #[some 0, some 0], 0⟩, ⟨[], #[some 0, some 0], 0⟩]

/-- They take as many rounds as there are starts and edges. -/
theorem analysis_ends_circling :
    circling.IsAnalysis false circlingRounds ∧
      circlingRounds.length =
        circling.startCount + (circling.targetCount + circling.fallCount) + 1 ∧
      (circlingRounds.filterMap (·.expands?)).Nodup ∧
      circling.explore false circling.instructions.code.toArray 3 circling.outset =
        some (.ok 0) := by
  have hrun : circling.IsAnalysis false circlingRounds := by
    refine ⟨?_, ?_⟩
    · rintro s ⟨⟩
      rfl
    · exact .cons_cons (.visit rfl)
        (.cons_cons (.visit rfl) (.cons_cons (.visit rfl) (.singleton _)))
  obtain ⟨hruns, hrounds⟩ := circling.analysis_ends false
  obtain ⟨-, hnodup⟩ := hruns circlingRounds hrun
  have hpeak : circling.peakDepth false = .ok 0 := rfl
  exact ⟨hrun, by decide, hnodup, hpeak ▸ hrounds 3 (by decide)⟩

-- with one round less there is no answer
example : circling.explore false circling.instructions.code.toArray 2
    circling.outset = none := by rfl

end Body

end Instrumentation
