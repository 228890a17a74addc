import Instrumentation.Proofs.Weaving.Splice

/-!
# Runs of a spliced body

A splice with a balanced block changes no run but for the states inside the
block. A state of the spliced body is either a state of the old one or stands
inside the block, on its way to the anchor; either way there is one old state
that it *approaches*. Steps from old states are old steps that may be held up on
the way, and steps inside the block approach the same state as before. Runs of
the two bodies are therefore the same runs once the states inside the block are
erased, and the depths found at old instructions stay consistent.

Refinement in this sense composes, so that insertions can be made one after the
other.

Sections: §1 the state ahead · §2 steps · §3 entries · §4 runs · §5 consistency
· §6 refinement.
-/

namespace Instrumentation

open InstructionList Splice

/-! ## §1  The state ahead -/

/-- The old state that control comes to next: it is there, or the rest of the
block takes it there. -/
inductive Approaches (b : Body) (anchor : Handle)
    (block : List (Handle × Instruction Handle)) :
    FlowState → FlowState → Prop
  | here {t : FlowState} : b.instructions.contains t.handle = true →
      Approaches b anchor block t t
  | within {done rest : List (Handle × Instruction Handle)} {h : Handle}
      {i : Instruction Handle} {depth after : Nat} :
      block = done ++ (h, i) :: rest →
      depthAfter depth (i :: rest.map (·.2)) = some after →
      Approaches b anchor block ⟨h, depth⟩ ⟨anchor, after⟩

section

variable {b w : Body} {anchor : Handle} {block : List (Handle × Instruction Handle)}
  {returnsValue : Bool} {s s' t : FlowState}

theorem Approaches.contains (hs : Splice b w anchor block)
    (ha : Approaches b anchor block s t) :
    b.instructions.contains t.handle = true := by
  cases ha with
  | here hin => exact hin
  | within => exact hs.contains_anchor

theorem Approaches.eq_of_old (hs : Splice b w anchor block)
    (ha : Approaches b anchor block s t)
    (hin : b.instructions.contains s.handle = true) : s = t := by
  cases ha with
  | here => rfl
  | within hblock =>
      have hnew := hs.new (hblock ▸ List.mem_append_right _ List.mem_cons_self)
      simp [hnew] at hin

/-- At the rest of the block control approaches the anchor. -/
theorem approaches_entrance (hs : Splice b w anchor block)
    {done rest : List (Handle × Instruction Handle)} {depth after : Nat}
    (hblock : block = done ++ rest)
    (hdepth : depthAfter depth (rest.map (·.2)) = some after) :
    Approaches b anchor block ⟨entrance anchor rest, depth⟩ ⟨anchor, after⟩ := by
  cases rest with
  | nil =>
      obtain rfl : depth = after := by simpa [depthAfter] using hdepth
      exact .here hs.contains_anchor
  | cons e rest => exact .within hblock hdepth

/-- Control that goes on to an old instruction approaches it with the depth it
has, the block being balanced. -/
theorem approaches_landing (hs : Splice b w anchor block)
    (hbalanced : depthAfter 0 (block.map (·.2)) = some 0) {h : Handle} {depth : Nat}
    (hin : b.instructions.contains h = true) :
    Approaches b anchor block ⟨landing anchor block h, depth⟩ ⟨h, depth⟩ := by
  by_cases heq : h = anchor
  · subst heq
    rw [landing_anchor]
    have hdepth := depthAfter_add depth hbalanced
    rw [Nat.zero_add] at hdepth
    exact approaches_entrance hs (show block = [] ++ block from rfl) hdepth
  · rw [landing_of_ne heq]
    exact .here hin

/-! ## §2  Steps -/

theorem performs_old (hs : Splice b w anchor block)
    (hin : b.instructions.contains s.handle = true) {i : Instruction Handle}
    {after : Nat} :
    w.Performs returnsValue s i after ↔ b.Performs returnsValue s i after := by
  obtain ⟨j, hj⟩ := contains_iff_get?.mp hin
  rw [Body.Performs, Body.Performs, hs.get?_old hj, hj]

/-- A step from an old state is a step of the old body, up to the way to where
that leads. -/
theorem exists_old_step (hs : Splice b w anchor block) (hb : b.IsLinked)
    (hbalanced : depthAfter 0 (block.map (·.2)) = some 0)
    (hin : b.instructions.contains s.handle = true)
    (hstep : w.Step returnsValue s s') :
    ∃ t, b.Step returnsValue s t ∧ Approaches b anchor block s' t := by
  cases hstep with
  | next hi hfall hnext =>
      rw [hs.next?_old hin, Option.map_eq_some_iff] at hnext
      obtain ⟨k, hk, rfl⟩ := hnext
      exact ⟨⟨k, _⟩, .next ((performs_old hs hin).mp hi) hfall hk,
        approaches_landing hs hbalanced (Body.contains_of_next? hk)⟩
  | jump hi hfollows hne hmem =>
      have hold := (performs_old hs hin).mp hi
      exact ⟨_, .jump hold hfollows hne hmem, .here (hb.targets hold.1 _ hmem)⟩
  | leave hi hop hmem =>
      have hold := (performs_old hs hin).mp hi
      exact ⟨_, .leave hold hop hmem, .here (hb.targets hold.1 _ hmem)⟩

/-- Every step of the old body is taken, up to the way to where it leads. -/
theorem exists_new_step (hs : Splice b w anchor block) (hb : b.IsLinked)
    (hbalanced : depthAfter 0 (block.map (·.2)) = some 0)
    (hstep : b.Step returnsValue s t) :
    ∃ s', w.Step returnsValue s s' ∧ Approaches b anchor block s' t := by
  have hin : b.instructions.contains s.handle = true := by
    obtain ⟨i, after, hi⟩ := hstep.performs
    exact contains_of_get? hi.1
  cases hstep with
  | @next i after k hi hfall hnext =>
      refine ⟨⟨landing anchor block k, after⟩, .next ((performs_old hs hin).mpr hi)
        hfall ?_, approaches_landing hs hbalanced (Body.contains_of_next? hnext)⟩
      rw [hs.next?_old hin, hnext, Option.map_some]
  | jump hi hfollows hne hmem =>
      exact ⟨_, .jump ((performs_old hs hin).mpr hi) hfollows hne hmem,
        .here (hb.targets hi.1 _ hmem)⟩
  | leave hi hop hmem =>
      exact ⟨_, .leave ((performs_old hs hin).mpr hi) hop hmem,
        .here (hb.targets hi.1 _ hmem)⟩

/-- Inside the block control goes on, and to the rest of the block only. -/
theorem step_within (returnsValue : Bool) (hs : Splice b w anchor block)
    {done rest : List (Handle × Instruction Handle)}
    {h : Handle} {i : Instruction Handle} {depth after : Nat}
    (hblock : block = done ++ (h, i) :: rest)
    (hdepth : depthAfter depth (i :: rest.map (·.2)) = some after) :
    ∃ d, depthAfter d (rest.map (·.2)) = some after ∧
      w.Performs returnsValue ⟨h, depth⟩ i d ∧
      ∀ s', w.Step returnsValue ⟨h, depth⟩ s' ↔ s' = ⟨entrance anchor rest, d⟩ := by
  have hmem : (h, i) ∈ block := hblock ▸ List.mem_append_right _ List.mem_cons_self
  have hget : w.instructions.get? h = some i := hs.get?_new hmem
  have hplain : i.IsPlain := hs.plain _ hmem
  obtain ⟨d, hi, hrest⟩ := hplain.performs (s := ⟨h, depth⟩) returnsValue hget hdepth
  refine ⟨d, hrest, hi, ?_⟩
  rintro ⟨k, d'⟩
  rw [hplain.step_iff hget, hs.next?_new hblock, Option.some.injEq]
  constructor
  · rintro ⟨hi', rfl⟩
    rw [(hi.unique hi').2]
  · intro heq
    obtain ⟨rfl, rfl⟩ := FlowState.mk.inj heq
    exact ⟨hi, rfl⟩

/-- Inside the block control goes on approaching the same state. -/
theorem Approaches.step_new (hs : Splice b w anchor block)
    (ha : Approaches b anchor block s t)
    (hnew : b.instructions.contains s.handle = false)
    (hstep : w.Step returnsValue s s') :
    Approaches b anchor block s' t := by
  cases ha with
  | here hin => simp [hnew] at hin
  | @within done rest h i depth after hblock hdepth =>
      obtain ⟨d, hrest, -, hsteps⟩ := step_within returnsValue hs hblock hdepth
      obtain rfl := (hsteps s').mp hstep
      exact approaches_entrance hs
        (show block = done ++ [(h, i)] ++ rest by simp [hblock]) hrest

/-- Control comes to the state ahead by way of new instructions. -/
theorem Approaches.exists_path (returnsValue : Bool) (hs : Splice b w anchor block)
    (ha : Approaches b anchor block s t) :
    ∃ path, (path ++ [t]).IsChain (w.Step returnsValue) ∧
      (path ++ [t]).head? = some s ∧
      ∀ x ∈ path, b.instructions.contains x.handle = false := by
  cases ha with
  | here => exact ⟨[], .singleton _, rfl, by simp⟩
  | @within done rest h i depth after hblock hdepth =>
      have hcode :
          ∀ e ∈ (h, i) :: rest, w.instructions.get? e.1 = some e.2 ∧ e.2.IsPlain := by
        intro e he
        have hmem : e ∈ block := hblock ▸ List.mem_append_right _ he
        exact ⟨hs.get?_new hmem, hs.plain e hmem⟩
      obtain ⟨front, back, -, hw⟩ := hs.exists_handles
      have hplace :
          ((h, i) :: rest).map (·.1) ++ [anchor] <:+: w.instructions.handles :=
        ⟨front ++ done.map (·.1), back, by simp [hw, hblock]⟩
      obtain ⟨walk, hhandles, hchain, hhead⟩ :=
        exists_walk (t := ⟨anchor, after⟩) returnsValue hcode hplace hdepth
      refine ⟨walk, hchain, ?_, ?_⟩
      · cases walk with
        | nil => simp at hhandles
        | cons x walk =>
            obtain ⟨hx, -⟩ := List.cons.inj hhandles
            obtain ⟨k, d⟩ := x
            obtain rfl : d = depth := hhead _ rfl
            obtain rfl : k = h := hx
            rfl
      · intro x hx
        have hmem : x.handle ∈ ((h, i) :: rest).map (·.1) :=
          hhandles ▸ List.mem_map_of_mem hx
        obtain ⟨e, he, heq⟩ := List.mem_map.mp hmem
        rw [← heq]
        exact hs.new (i := e.2) (hblock ▸ List.mem_append_right _ he)

/-! ## §3  Entries -/

theorem exists_old_start (hs : Splice b w anchor block)
    (hbalanced : depthAfter 0 (block.map (·.2)) = some 0) (hstart : w.AtStart s) :
    ∃ t, b.AtStart t ∧ Approaches b anchor block s t := by
  obtain ⟨h, depth⟩ := s
  obtain ⟨hfirst, rfl⟩ := hstart
  rw [hs.first?, Option.map_eq_some_iff] at hfirst
  obtain ⟨f, hf, rfl⟩ := hfirst
  exact ⟨⟨f, 0⟩, ⟨hf, rfl⟩, approaches_landing hs hbalanced
    (Body.contains_of_first? hf)⟩

theorem exists_new_start (hs : Splice b w anchor block)
    (hbalanced : depthAfter 0 (block.map (·.2)) = some 0) (hstart : b.AtStart t) :
    ∃ s, w.AtStart s ∧ Approaches b anchor block s t := by
  obtain ⟨h, depth⟩ := t
  obtain ⟨hfirst, rfl⟩ := hstart
  refine ⟨⟨landing anchor block h, 0⟩, ⟨?_, rfl⟩,
    approaches_landing hs hbalanced (Body.contains_of_first? hfirst)⟩
  rw [hs.first?, hfirst, Option.map_some]

theorem exists_old_entry (hs : Splice b w anchor block) (hb : b.IsLinked)
    (hbalanced : depthAfter 0 (block.map (·.2)) = some 0) (hstart : w.Enters s) :
    ∃ t, b.Enters t ∧ Approaches b anchor block s t := by
  rcases hstart.start_or_mark with hstart | ⟨-, hall⟩
  · obtain ⟨t, ht, ha⟩ := exists_old_start hs hbalanced hstart
    exact ⟨t, ht.enters, ha⟩
  · have hold := hall b hs.handlers.symm
    exact ⟨s, hold, .here (hold.contains hb)⟩

theorem exists_new_entry (hs : Splice b w anchor block) (hb : b.IsLinked)
    (hbalanced : depthAfter 0 (block.map (·.2)) = some 0) (hstart : b.Enters t) :
    ∃ s, w.Enters s ∧ Approaches b anchor block s t := by
  have hin := hstart.contains hb
  rcases hstart.start_or_mark with hstart | ⟨-, hall⟩
  · obtain ⟨s, hs', ha⟩ := exists_new_start hs hbalanced hstart
    exact ⟨s, hs'.enters, ha⟩
  · exact ⟨t, hall w hs.handlers, .here hin⟩

/-! ## §4  Runs -/

def Body.erase (b : Body) (run : List FlowState) : List FlowState :=
  run.filter fun s => b.instructions.contains s.handle

theorem isChain_erase (hs : Splice b w anchor block) (hb : b.IsLinked)
    (hbalanced : depthAfter 0 (block.map (·.2)) = some 0) {run : List FlowState}
    (hrun : (s :: run).IsChain (w.Step returnsValue))
    (ha : Approaches b anchor block s t) :
    (b.erase (s :: run)).IsChain (b.Step returnsValue) ∧
      ∀ x ∈ (b.erase (s :: run)).head?, x = t := by
  -- by induction on the run: an old state is the one ahead, a new one leaves it
  -- ahead
  induction run generalizing s t with
  | nil =>
      by_cases hin : b.instructions.contains s.handle = true
      · obtain rfl := ha.eq_of_old hs hin
        simp [Body.erase, hin]
      · simp [Body.erase, hin]
  | cons s' run ih =>
      obtain ⟨hstep, hrest⟩ := List.isChain_cons_cons.mp hrun
      by_cases hin : b.instructions.contains s.handle = true
      · obtain rfl := ha.eq_of_old hs hin
        obtain ⟨t', hstep', ha'⟩ := exists_old_step hs hb hbalanced hin hstep
        obtain ⟨hchain, hhead⟩ := ih hrest ha'
        have herase : b.erase (s :: s' :: run) = s :: b.erase (s' :: run) :=
          List.filter_cons_of_pos hin
        rw [herase, List.isChain_cons]
        refine ⟨⟨?_, hchain⟩, by simp⟩
        intro y hy
        exact hhead y hy ▸ hstep'
      · have hnew : b.instructions.contains s.handle = false := by simpa using hin
        have herase : b.erase (s :: s' :: run) = b.erase (s' :: run) :=
          List.filter_cons_of_neg hin
        rw [herase]
        exact ih hrest (ha.step_new hs hnew hstep)

theorem exists_isChain (hs : Splice b w anchor block) (hb : b.IsLinked)
    (hbalanced : depthAfter 0 (block.map (·.2)) = some 0) {run : List FlowState}
    (hrun : (t :: run).IsChain (b.Step returnsValue))
    (ha : Approaches b anchor block s t) :
    ∃ run', run'.IsChain (w.Step returnsValue) ∧ run'.head? = some s ∧
      b.erase run' = t :: run := by
  have hpath : ∀ path : List FlowState,
      (∀ x ∈ path, b.instructions.contains x.handle = false) →
      b.erase path = [] := by
    intro path hnew
    rw [Body.erase, List.filter_eq_nil_iff]
    intro x hx
    simp [hnew x hx]
  -- by induction on the run: the way to its first state, that state, and the
  -- run from the next one
  induction run generalizing s t with
  | nil =>
      obtain ⟨path, hchain, hhead, hnew⟩ := ha.exists_path returnsValue hs
      refine ⟨path ++ [t], hchain, hhead, ?_⟩
      rw [Body.erase, List.filter_append, ← Body.erase, hpath path hnew]
      simp [ha.contains hs]
  | cons t' run ih =>
      obtain ⟨hstep, hrest⟩ := List.isChain_cons_cons.mp hrun
      obtain ⟨s', hstep', ha'⟩ := exists_new_step hs hb hbalanced hstep
      obtain ⟨run', hchain', hhead', herase⟩ := ih hrest ha'
      obtain ⟨path, hchain, hhead, hnew⟩ := ha.exists_path returnsValue hs
      refine ⟨path ++ [t] ++ run', ?_, ?_, ?_⟩
      · refine hchain.append hchain' ?_
        intro x hx y hy
        obtain rfl : t = x := by simpa using hx
        obtain rfl := Option.some.inj (hhead'.symm.trans hy)
        exact hstep'
      · rw [List.head?_append, hhead, Option.some_or]
      · rw [Body.erase, List.filter_append, List.filter_append, ← Body.erase,
          ← Body.erase, ← Body.erase, hpath path hnew, herase]
        simp [Body.erase, ha.contains hs]

/-- A run of the spliced body is a run of the old one once the new states are
erased. -/
theorem isRunFrom_erase (hs : Splice b w anchor block) (hb : b.IsLinked)
    (hbalanced : depthAfter 0 (block.map (·.2)) = some 0)
    {start start' : FlowState → Prop}
    (hstart : ∀ {s}, start' s → ∃ t, start t ∧ Approaches b anchor block s t)
    {run : List FlowState} (hrun : w.IsRunFrom returnsValue start' run) :
    b.IsRunFrom returnsValue start (b.erase run) := by
  obtain ⟨hhead, hchain⟩ := hrun
  cases run with
  | nil => exact ⟨by simp [Body.erase], .nil⟩
  | cons s run =>
      obtain ⟨t, ht, ha⟩ := hstart (hhead s rfl)
      obtain ⟨hchain', hhead'⟩ := isChain_erase hs hb hbalanced hchain ha
      exact ⟨fun x hx => hhead' x hx ▸ ht, hchain'⟩

/-- Every run of the old body is what is left of a run of the spliced one. -/
theorem exists_isRunFrom (hs : Splice b w anchor block) (hb : b.IsLinked)
    (hbalanced : depthAfter 0 (block.map (·.2)) = some 0)
    {start start' : FlowState → Prop}
    (hstart : ∀ {t}, start t → ∃ s, start' s ∧ Approaches b anchor block s t)
    {run : List FlowState} (hrun : b.IsRunFrom returnsValue start run) :
    ∃ run', w.IsRunFrom returnsValue start' run' ∧ b.erase run' = run := by
  obtain ⟨hhead, hchain⟩ := hrun
  cases run with
  | nil => exact ⟨[], ⟨by simp, .nil⟩, rfl⟩
  | cons t run =>
      obtain ⟨s, hs', ha⟩ := hstart (hhead t rfl)
      obtain ⟨run', hchain', hhead', herase⟩ :=
        exists_isChain hs hb hbalanced hchain ha
      refine ⟨run', ⟨?_, hchain'⟩, herase⟩
      intro x hx
      obtain rfl := Option.some.inj (hhead'.symm.trans hx)
      exact hs'

/-! ## §5  Consistency -/

theorem exists_reachable (hs : Splice b w anchor block) (hb : b.IsLinked)
    (hbalanced : depthAfter 0 (block.map (·.2)) = some 0)
    (hreach : w.Reachable returnsValue s) :
    ∃ t, b.Reachable returnsValue t ∧ Approaches b anchor block s t := by
  induction hreach with
  | enters hstart =>
      obtain ⟨t, ht, ha⟩ := exists_old_entry hs hb hbalanced hstart
      exact ⟨t, .enters ht, ha⟩
  | @step s s' hreach hstep ih =>
      obtain ⟨t, ht, ha⟩ := ih
      by_cases hin : b.instructions.contains s.handle = true
      · obtain rfl := ha.eq_of_old hs hin
        obtain ⟨t', hstep', ha'⟩ := exists_old_step hs hb hbalanced hin hstep
        exact ⟨t', .step ht hstep', ha'⟩
      · exact ⟨t, ht, ha.step_new hs (by simpa using hin) hstep⟩

/-- The state ahead and the instruction where control stands tell the depth. -/
theorem Approaches.depth_eq (hs : Splice b w anchor block) {t' : FlowState}
    (ha : Approaches b anchor block s t) (ha' : Approaches b anchor block s' t')
    (hhandle : s.handle = s'.handle)
    (hdepth : t.handle = t'.handle → t.depth = t'.depth) : s.depth = s'.depth := by
  by_cases hin : b.instructions.contains s.handle = true
  · obtain rfl := ha.eq_of_old hs hin
    obtain rfl := ha'.eq_of_old hs (hhandle ▸ hin)
    exact hdepth hhandle
  · cases ha with
    | here hold => exact absurd hold hin
    | @within done rest h i depth after hblock hrest =>
        cases ha' with
        | here hold => exact absurd (hhandle ▸ hold) hin
        | @within done' rest' h' i' depth' after' hblock' hrest' =>
            obtain rfl : h = h' := hhandle
            obtain rfl : after = after' := hdepth rfl
            have hnd := hs.nodup_block
            rw [hblock, List.map_append, List.map_cons, List.nodup_middle,
              List.nodup_cons, List.mem_append, not_or] at hnd
            obtain ⟨⟨hdone, hlater⟩, -⟩ := hnd
            have hkey : ∀ {es : List (Handle × Instruction Handle)},
                h ∉ es.map (·.1) → (h, i') ∉ es :=
              fun hnot hmem => hnot (List.mem_map_of_mem hmem)
            obtain ⟨-, hhere, rfl⟩ := (List.append_cons_inj_of_notMem (hkey hdone)
              (hkey hlater)).mp (hblock.symm.trans hblock')
            obtain ⟨-, rfl⟩ := Prod.mk.inj hhere
            exact depthAfter_injective hrest hrest'

/-- A splice with a balanced block keeps a body consistent. -/
theorem consistent_of_splice (hs : Splice b w anchor block) (hb : b.IsLinked)
    (hbalanced : depthAfter 0 (block.map (·.2)) = some 0)
    (hcons : b.Consistent returnsValue) : w.Consistent returnsValue := by
  refine ⟨?_, ?_⟩
  · intro s hreach
    obtain ⟨t, ht, ha⟩ := exists_reachable hs hb hbalanced hreach
    cases ha with
    | here hin =>
        obtain ⟨i, after, hi⟩ := hcons.performs ht
        exact ⟨i, after, (performs_old hs hin).mpr hi⟩
    | within hblock hdepth =>
        obtain ⟨d, -, hi, -⟩ := step_within returnsValue hs hblock hdepth
        exact ⟨_, d, hi⟩
  · intro s s' hreach hreach' hhandle
    obtain ⟨t, ht, ha⟩ := exists_reachable hs hb hbalanced hreach
    obtain ⟨t', ht', ha'⟩ := exists_reachable hs hb hbalanced hreach'
    exact ha.depth_eq hs ha' hhandle (hcons.depth ht ht')

/-! ## §6  Refinement -/

/-- A body that does what another one does, with instructions of its own in
between. -/
structure Refines (b w : Body) (returnsValue : Bool) : Prop where
  contains : ∀ {h}, b.instructions.contains h = true →
    w.instructions.contains h = true
  isRun_erase : ∀ {run}, w.IsRun returnsValue run → b.IsRun returnsValue (b.erase run)
  exists_isRun : ∀ {run}, b.IsRun returnsValue run →
    ∃ run', w.IsRun returnsValue run' ∧ b.erase run' = run
  isMethodRun_erase : ∀ {run}, w.IsMethodRun returnsValue run →
    b.IsMethodRun returnsValue (b.erase run)
  exists_isMethodRun : ∀ {run}, b.IsMethodRun returnsValue run →
    ∃ run', w.IsMethodRun returnsValue run' ∧ b.erase run' = run

theorem refines_of_splice (hs : Splice b w anchor block) (hb : b.IsLinked)
    (hbalanced : depthAfter 0 (block.map (·.2)) = some 0) :
    Refines b w returnsValue where
  contains := hs.contains_old
  isRun_erase := isRunFrom_erase hs hb hbalanced (exists_old_entry hs hb hbalanced)
  exists_isRun := exists_isRunFrom hs hb hbalanced (exists_new_entry hs hb hbalanced)
  isMethodRun_erase := isRunFrom_erase hs hb hbalanced (exists_old_start hs hbalanced)
  exists_isMethodRun :=
    exists_isRunFrom hs hb hbalanced (exists_new_start hs hbalanced)

theorem erase_eq_self (hb : b.IsLinked) {start : FlowState → Prop}
    (hstart : ∀ {s}, start s → b.Enters s) {run : List FlowState}
    (hrun : b.IsRunFrom returnsValue start run) : b.erase run = run := by
  obtain ⟨hhead, hchain⟩ := hrun
  rw [Body.erase, List.filter_eq_self]
  refine hchain.induction (fun s => b.instructions.contains s.handle = true) run
    (fun _ _ hstep _ => hstep.contains hb) ?_
  intro hne
  exact (hstart (hhead _ (List.head?_eq_some_head hne))).contains hb

theorem Refines.refl (hb : b.IsLinked) : Refines b b returnsValue where
  contains := id
  isRun_erase hrun := by rwa [erase_eq_self hb id hrun]
  exists_isRun hrun := ⟨_, hrun, erase_eq_self hb id hrun⟩
  isMethodRun_erase hrun := by rwa [erase_eq_self hb Body.AtStart.enters hrun]
  exists_isMethodRun hrun := ⟨_, hrun, erase_eq_self hb Body.AtStart.enters hrun⟩

theorem Refines.trans {v : Body} (hbw : Refines b w returnsValue)
    (hwv : Refines w v returnsValue) : Refines b v returnsValue := by
  have herase : ∀ run, b.erase (w.erase run) = b.erase run := by
    intro run
    rw [Body.erase, Body.erase, List.filter_filter]
    refine List.filter_congr ?_
    intro s _
    by_cases hin : b.instructions.contains s.handle = true
    · simp [hin, hbw.contains hin]
    · simp [hin]
  refine ⟨fun hin => hwv.contains (hbw.contains hin), ?_, ?_, ?_, ?_⟩
  · intro run hrun
    rw [← herase]
    exact hbw.isRun_erase (hwv.isRun_erase hrun)
  · intro run hrun
    obtain ⟨run', hrun', rfl⟩ := hbw.exists_isRun hrun
    obtain ⟨run'', hrun'', rfl⟩ := hwv.exists_isRun hrun'
    exact ⟨run'', hrun'', (herase run'').symm⟩
  · intro run hrun
    rw [← herase]
    exact hbw.isMethodRun_erase (hwv.isMethodRun_erase hrun)
  · intro run hrun
    obtain ⟨run', hrun', rfl⟩ := hbw.exists_isMethodRun hrun
    obtain ⟨run'', hrun'', rfl⟩ := hwv.exists_isMethodRun hrun'
    exact ⟨run'', hrun'', (herase run'').symm⟩

end

end Instrumentation
