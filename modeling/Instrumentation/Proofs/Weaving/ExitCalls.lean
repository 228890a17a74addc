import Instrumentation.Proofs.Weaving.ControlFlow

/-!
# Exit calls

The exit call of a return stands immediately before it, and branches to the
return go on naming the return. So control comes to an instrumented return in
one of two ways: it falls through from the instruction before, and then it has
just gone through the whole call, or an instruction of the original body that
names the return has sent it there, and then it has gone round the call.

Sections: §1 blocks stay together · §2 the way back · §3 applied plans.
-/

namespace Instrumentation

open InstructionList

/-! ## §1  Blocks stay together -/

/-- A splice tears nothing apart that it does not have its anchor in. -/
theorem Splice.infix_handles {b w : Body} {anchor : Handle}
    {block : List (Handle × Instruction Handle)} {part : List Handle}
    (hs : Splice b w anchor block) (hpart : part <:+: b.instructions.handles)
    (hanchor : anchor ∉ part) : part <:+: w.instructions.handles := by
  obtain ⟨front, back, hb, hw⟩ := hs.exists_handles
  rw [hb, List.infix_append_iff_ne_nil] at hpart
  rw [hw]
  rcases hpart with hfront | hback | ⟨xs, ys, -, hys, rfl, -, hpre⟩
  · exact List.infix_append_of_infix_left hfront
  · exact List.infix_append_of_infix_right (List.infix_append_of_infix_right hback)
  · cases ys with
    | nil => exact absurd rfl hys
    | cons y ys =>
        obtain ⟨rfl, -⟩ := List.cons_prefix_cons.mp hpre
        simp at hanchor

namespace Splices

variable {b v : Body} {blocks : List Placed}

theorem infix_handles (hs : Splices b blocks v) {part : List Handle}
    (hpart : part <:+: b.instructions.handles) (hanchors : ∀ x ∈ blocks, x.1 ∉ part) :
    part <:+: v.instructions.handles := by
  induction hs with
  | nil => exact hpart
  | cons hsplice _ ih =>
      obtain ⟨hfirst, hrest⟩ := List.forall_mem_cons.mp hanchors
      exact ih (hsplice.infix_handles hpart hfirst) hrest

/-- Blocks before different old instructions end up immediately before them. -/
theorem block_place (hs : Splices b blocks v) (hnodup : (blocks.map (·.1)).Nodup)
    (hold : ∀ x ∈ blocks, b.instructions.contains x.1 = true) :
    ∀ x ∈ blocks, x.2.map (·.1) ++ [x.1] <:+: v.instructions.handles := by
  induction hs with
  | nil => simp
  | @cons b w v anchor block rest hsplice hsplices ih =>
      obtain ⟨-, hrest⟩ := List.forall_mem_cons.mp hold
      rw [List.map_cons, List.nodup_cons] at hnodup
      refine List.forall_mem_cons.mpr
        ⟨?_, ih hnodup.2 fun x hx => hsplice.contains_old (hrest x hx)⟩
      obtain ⟨front, back, -, hw⟩ := hsplice.exists_handles
      have hhere : block.map (·.1) ++ [anchor] <:+: w.instructions.handles :=
        ⟨front, back, by simp [hw]⟩
      refine hsplices.infix_handles hhere ?_
      intro x hx hmem
      rcases List.mem_append.mp hmem with hblock | hanchor
      · obtain ⟨e, he, heq⟩ := List.mem_map.mp hblock
        have hnew := hsplice.new (i := e.2) he
        rw [heq, hrest x hx] at hnew
        simp at hnew
      · exact hnodup.1 (List.mem_singleton.mp hanchor ▸ List.mem_map_of_mem hx)

end Splices

/-! ## §2  The way back -/

namespace Body

variable {w : Body} {returnsValue : Bool}

/-- An instruction that control can only come to from the one before it. -/
structure OnlyFalls (w : Body) (h : Handle) : Prop where
  notFirst : w.instructions.first? ≠ some h
  untargeted : ∀ {k i}, w.instructions.get? k = some i → h ∉ i.targets

/-- In a run there is a step to every state but the first. -/
theorem IsMethodRun.exists_step {before after : List FlowState} {s : FlowState}
    (hrun : w.IsMethodRun returnsValue (before ++ s :: after))
    (hfirst : w.instructions.first? ≠ some s.handle) :
    ∃ front t, before = front ++ [t] ∧ w.Step returnsValue t s := by
  rcases List.eq_nil_or_concat before with rfl | ⟨front, t, rfl⟩
  · exact absurd (hrun.1 s rfl).1 hfirst
  · refine ⟨front, t, by simp, ?_⟩
    have hchain := hrun.2
    simp only [List.concat_eq_append, List.append_assoc,
      List.cons_append, List.nil_append] at hchain
    exact (List.isChain_append_cons_cons.mp hchain).2.1

/-- Control has just gone through instructions that it can only fall into, if it
is at the last of them. -/
theorem IsMethodRun.went_through {part : List Handle} {last : Handle}
    (hpart : part ++ [last] <:+: w.instructions.handles)
    (hfalls : ∀ h ∈ part ++ [last], w.OnlyFalls h)
    {before after : List FlowState} {s : FlowState}
    (hrun : w.IsMethodRun returnsValue (before ++ s :: after))
    (hs : s.handle = last) :
    ∃ front back, before ++ [s] = front ++ back ∧
      back.map (·.handle) = part ++ [last] := by
  induction part using List.reverseRecOn generalizing last before after s with
  | nil => exact ⟨before, [s], rfl, by simp [hs]⟩
  | append_singleton part k ih =>
      have hlast : w.OnlyFalls s.handle := hs ▸ hfalls last (by simp)
      obtain ⟨front, t, rfl, hstep⟩ := hrun.exists_step hlast.notFirst
      have hpair : w.instructions.next? k = some s.handle := by
        rw [hs, next?_eq_some_iff]
        exact List.IsInfix.trans ⟨part, [], by simp⟩ hpart
      have ht : t.handle = k := by
        cases hstep with
        | next hi hfall hnext => exact next?_injective hnext hpair
        | jump hi hfollows hne hmem => exact absurd hmem (hlast.untargeted hi.1)
        | leave hi hop hmem => exact absurd hmem (hlast.untargeted hi.1)
      have hrun' : w.IsMethodRun returnsValue (front ++ t :: (s :: after)) := by
        simpa using hrun
      obtain ⟨front', back, heq, hback⟩ :=
        ih ((List.prefix_append _ _).isInfix.trans hpart)
          (fun h hh => hfalls h (List.mem_append_left _ hh)) hrun' ht
      exact ⟨front', back ++ [s], by rw [heq, List.append_assoc], by simp [hback, hs]⟩

end Body

/-! ## §3  Applied plans -/

/-- The exit call of a listed return: its instructions stand immediately before
the return, and control only falls into them. -/
structure IsExitCall (b w : Body) (site : Handle) (call : List Handle)
    (s : Insertion) : Prop where
  code : call.map w.instructions.get? = s.instructions.map some
  new : ∀ h ∈ call, b.instructions.contains h = false
  place : call ++ [site] <:+: w.instructions.handles
  falls : ∀ h ∈ call, w.OnlyFalls h

/-- An exit call stands immediately before its return. -/
theorem Plan.Suits.exit_place {p : Plan} {m : MethodDef Body} {b w : Body}
    {logger : FieldRef} {callable : MethodRef} {exit : ExitLogging}
    {entry : List (Handle × Instruction Handle)} {exits : List Placed}
    (hp : p.Suits m b logger callable exit) (ha : p.Applied b w entry exits) :
    ∀ x ∈ exits, x.2.map (·.1) ++ [x.1] <:+: w.instructions.handles := by
  obtain ⟨hsplices, -, hexits⟩ := ha
  have hanchors : exits.map (·.1) = p.exits.map (·.1) := by
    simpa [Function.comp_def] using congrArg (List.map Prod.fst) hexits
  cases hsplices with
  | cons hfirst hrest =>
      refine hrest.block_place (hanchors ▸ hp.nodup) ?_
      intro y hy
      obtain ⟨step, hstep, heq, -⟩ := exists_step_of_block hexits hy
      exact hfirst.contains_old
        (heq ▸ hp.contains step (List.mem_cons_of_mem _ hstep))

theorem Plan.Suits.exists_exitCall {p : Plan} {m : MethodDef Body} {b w : Body}
    {logger : FieldRef} {callable : MethodRef} {exit : ExitLogging}
    {entry : List (Handle × Instruction Handle)} {exits : List Placed}
    (hp : p.Suits m b logger callable exit) (hlinked : b.IsLinked)
    (ha : p.Applied b w entry exits) :
    ∀ step ∈ p.exits, ∃ call, IsExitCall b w step.1 call step.2 := by
  intro step hstep
  have hsplices := ha.splices
  have hexits := ha.exitCodes
  obtain ⟨x, hx, hsite, hcode⟩ := exists_block_of_step hexits hstep
  have hnew : ∀ h ∈ x.2.map (·.1), b.instructions.contains h = false :=
    fun _ => hsplices.not_contains_of_mem (List.mem_cons_of_mem _ hx)
  have hget := hsplices.map_get? (List.mem_cons_of_mem _ hx)
  obtain ⟨w₁, hfirst, hrest⟩ :
      ∃ w₁, Splice b w₁ p.entry.1 entry ∧ Splices w₁ exits w := by
    cases hsplices with
    | cons hfirst hrest => exact ⟨_, hfirst, hrest⟩
  refine ⟨x.2.map (·.1), by rw [hget, hcode], hnew, ?_, ?_⟩
  · rw [← hsite]
    exact hp.exit_place ha x hx
  · intro h hh
    refine ⟨?_, ?_⟩
    · -- the first instruction is one of the entry call, which was there before the
      -- exit calls
      intro hstart
      obtain ⟨e, he, rfl⟩ :=
        List.mem_map.mp (hp.mem_entry_of_first? hlinked ha hstart)
      have hlate := hrest.not_contains_of_mem hx hh
      rw [contains_of_get? (hfirst.get?_new he)] at hlate
      simp at hlate
    · intro k i hi hmem
      have hin := hlinked.targets (hsplices.get?_old_of_target hi hmem) h hmem
      rw [hnew h hh] at hin
      simp at hin

/-- Control that comes to a return has gone through its exit call, or else an
old instruction that names the return has sent it there. -/
theorem IsExitCall.went_through_iff {b w : Body} {blocks : List Placed}
    {site : Handle} {call : List Handle} {s : Insertion} {returnsValue : Bool}
    (hcall : IsExitCall b w site call s) (hsplices : Splices b blocks w)
    (hcode : s.instructions ≠ []) (hfirst : w.instructions.first? ≠ some site)
    {before after : List FlowState} {t : FlowState}
    (hrun : w.IsMethodRun returnsValue (before ++ t :: after))
    (ht : t.handle = site) :
    (∃ front back, before = front ++ back ∧ back.map (·.handle) = call) ↔
      ¬ ∃ front u i, before = front ++ [u] ∧ b.instructions.get? u.handle = some i ∧
        i.op.followsTargets = true ∧ site ∈ i.targets := by
  obtain ⟨part, last, rfl⟩ : ∃ part last, call = part ++ [last] := by
    rcases List.eq_nil_or_concat call with rfl | ⟨part, last, rfl⟩
    · have hempty := hcall.code
      rw [List.map_nil, eq_comm, List.map_eq_nil_iff] at hempty
      exact absurd hempty hcode
    · exact ⟨part, last, by simp⟩
  constructor
  · -- the state before would be at the last instruction of the call, which is a new
    -- one, and at an old one
    rintro ⟨front, back, rfl, hback⟩ ⟨front', u, i, heq, hi, -, -⟩
    obtain ⟨back, u', rfl⟩ : ∃ xs u', back = xs ++ [u'] := by
      rcases List.eq_nil_or_concat back with rfl | ⟨xs, u', rfl⟩
      · simp at hback
      · exact ⟨xs, u', by simp⟩
    obtain rfl : u' = u := by simpa using congrArg List.getLast? heq
    have hnew := hcall.new u'.handle (hback ▸ by simp)
    rw [contains_of_get? hi] at hnew
    simp at hnew
  · intro hnot
    obtain ⟨front, u, rfl, hstep⟩ := hrun.exists_step (ht ▸ hfirst)
    have hrun' : w.IsMethodRun returnsValue (front ++ u :: (t :: after)) := by
      simpa using hrun
    have hlast : w.instructions.next? last = some t.handle := by
      rw [ht, next?_eq_some_iff]
      exact List.IsInfix.trans ⟨part, [], by simp⟩ hcall.place
    cases hstep with
    | next hi hfall hnext =>
        exact hrun'.went_through ((List.prefix_append _ _).isInfix.trans hcall.place)
          hcall.falls (next?_injective hnext hlast)
    | jump hi hfollows hne hmem =>
        exact absurd ⟨front, u, _, rfl, hsplices.get?_old_of_target hi.1 hmem,
          hfollows, ht ▸ hmem⟩ hnot
    | leave hi hop hmem =>
        exact absurd ⟨front, u, _, rfl, hsplices.get?_old_of_target hi.1 hmem,
          by rw [hop]; rfl, ht ▸ hmem⟩ hnot

/-- Exit calls are gone through exactly where returns are fallen into. In every
run of an instrumented method from its start, when control comes to a listed
return, it has just gone through the exit call of the return, unless it has just
been sent there by an instruction of the original body that names the return:
then it has not. -/
theorem MethodDef.exit_call_iff_not_branched_to (m : MethodDef Body) (b : Body)
    (logger : FieldRef) (callable emptyArray : MethodRef) (message : String)
    (p : Plan) (n : Nat) (m' : MethodDef Body) (hbody : m.body? = some b)
    (hverify : b.verify m.returnsValue = .ok ())
    (hplan : m.plan logger callable (.enabled emptyArray message) = .ok p)
    (hok : m.apply p = (.ok n, m')) :
    ∃ w, m'.body? = some w ∧ ∀ step ∈ p.exits, ∃ call : List Handle,
      call.map w.instructions.get? =
        (exitCall logger callable emptyArray message).instructions.map some ∧
      (∀ h ∈ call, b.instructions.contains h = false) ∧
      ∀ before s after, w.IsMethodRun m.returnsValue (before ++ s :: after) →
        s.handle = step.1 →
        ((∃ front back, before = front ++ back ∧ back.map (·.handle) = call) ↔
          ¬ ∃ front t i, before = front ++ [t] ∧
            b.instructions.get? t.handle = some i ∧
            i.op.followsTargets = true ∧ step.1 ∈ i.targets) := by
  obtain ⟨b', hp⟩ := plan_eq_ok hplan
  obtain rfl : b = b' := Option.some.inj (hbody.symm.trans hp.body)
  have hlinked : b.IsLinked := (Body.verify_eq_ok_iff.mp hverify).1.isLinked
  obtain ⟨-, w, entry, exits, rfl, ha, -, -⟩ := hp.applied hok
  refine ⟨w, rfl, ?_⟩
  intro step hstep
  obtain ⟨call, hcall⟩ := hp.exists_exitCall hlinked ha step hstep
  obtain ⟨-, emptyArray', message', hexit, hcode⟩ := hp.exit_of_mem hstep
  obtain ⟨rfl, rfl⟩ := ExitLogging.enabled.inj hexit
  have hfirst : w.instructions.first? ≠ some step.1 := by
    intro hfirst
    have hnew := ha.splices.not_contains_of_mem List.mem_cons_self
      (hp.mem_entry_of_first? hlinked ha hfirst)
    rw [hp.contains step (List.mem_cons_of_mem _ hstep)] at hnew
    simp at hnew
  have hsome : step.2.instructions ≠ [] := by simp [hcode, exitCall]
  exact ⟨call, hcode ▸ hcall.code, hcall.new,
    fun _ _ _ hrun hs => hcall.went_through_iff ha.splices hsome hfirst hrun hs⟩

theorem exit_call_waiting :
    ∃ m' w, waitingMethod.apply waitingPlan = (.ok 1, m') ∧
      m'.body? = some w ∧
      ∃ call : List Handle, call.length = 5 ∧ ∀ before s after,
        w.IsMethodRun false (before ++ s :: after) → s.handle = ⟨1, 2⟩ →
          ∃ front back, before = front ++ back ∧ back.map (·.handle) = call := by
  have hplan : waitingMethod.plan sampleLogger logInformation
      (.enabled arrayEmpty "Method exit") = .ok waitingPlan := rfl
  obtain ⟨b, hp⟩ := MethodDef.plan_eq_ok hplan
  obtain rfl : Body.waiting = b := Option.some.inj hp.body
  obtain ⟨m', hok⟩ := hp.apply_ok (by decide)
  obtain ⟨w, hw, hall⟩ := waitingMethod.exit_call_iff_not_branched_to Body.waiting
    sampleLogger logInformation arrayEmpty "Method exit" waitingPlan 1 m' rfl
    (by decide +kernel) hplan hok
  obtain ⟨call, hcode, -, hruns⟩ := hall _ List.mem_cons_self
  refine ⟨m', w, hok, hw, call,
    by simpa [exitCall] using congrArg List.length hcode, ?_⟩
  intro before s after hrun hs
  refine (hruns before s after hrun hs).mpr ?_
  rintro ⟨front, t, i, -, hi, -, hmem⟩
  have hcode : i ∈ Body.waiting.instructions.code := Body.mem_code.mpr ⟨_, hi⟩
  have hlist : Body.waiting.instructions.code =
      [.ldarg 1, ⟨.brtrue, .target ⟨1, 0⟩⟩, ⟨.ret, .none⟩] := rfl
  rw [hlist] at hcode
  simp only [List.mem_cons, List.not_mem_nil, or_false] at hcode
  rcases hcode with rfl | rfl | rfl <;>
    simp [Instruction.targets, Operand.targets, Instruction.ldarg] at hmem

def branching : Body :=
  .ofInstructions (.ofList 1 [⟨.br, .target ⟨1, 1⟩⟩, ⟨.ret, .none⟩])

def branchingMethod : MethodDef Body :=
  { name := "Leave", visibility := .publicAccess, isStatic := false,
    genericParams := []
    params := [], returnType := .void, body? := some branching }

def branchingPlan : Plan :=
  ⟨(⟨1, 0⟩, ⟨entryCode branchingMethod sampleLogger logInformation 0, [.objects]⟩),
    [(⟨1, 1⟩, exitCall sampleLogger logInformation arrayEmpty "Method exit")]⟩

/-- Not every run that comes to a listed return has gone through its exit call:
the branch of `branching` has gone round it. -/
theorem branch_goes_round_exit_call :
    ¬ ∀ (m : MethodDef Body) (b : Body) (logger : FieldRef)
        (callable emptyArray : MethodRef) (message : String) (p : Plan) (n : Nat)
        (m' : MethodDef Body) (w : Body),
      m.body? = some b → b.verify m.returnsValue = .ok () →
      m.plan logger callable (.enabled emptyArray message) = .ok p →
      m.apply p = (.ok n, m') → m'.body? = some w →
      ∀ step ∈ p.exits, ∃ call : List Handle,
        call.map w.instructions.get? =
          (exitCall logger callable emptyArray message).instructions.map some ∧
        ∀ before s after, w.IsMethodRun m.returnsValue (before ++ s :: after) →
          s.handle = step.1 →
          ∃ front back, before = front ++ back ∧ back.map (·.handle) = call := by
  intro halways
  have hverify : branching.verify false = .ok () := by decide +kernel
  have hlinked : branching.IsLinked := (Body.verify_eq_ok_iff.mp hverify).1.isLinked
  have hplan : branchingMethod.plan sampleLogger logInformation
      (.enabled arrayEmpty "Method exit") = .ok branchingPlan := rfl
  have hempty : ∀ emptyArray message,
      ExitLogging.enabled arrayEmpty "Method exit" = .enabled emptyArray message →
      emptyArray.GivesArray := by
    rintro _ _ ⟨⟩
    exact ⟨rfl, rfl⟩
  obtain ⟨b, hp⟩ := MethodDef.plan_eq_ok hplan
  obtain rfl : branching = b := Option.some.inj hp.body
  obtain ⟨m', hok⟩ := hp.apply_ok (by decide)
  obtain ⟨-, w, entry, exits, rfl, ha, -, -⟩ := hp.applied hok
  obtain ⟨call, hcode, hcall⟩ :=
    halways _ _ _ _ _ _ _ _ _ w rfl hverify hplan hok rfl _ List.mem_cons_self
  -- a run that has come to the branch, and the step that the branch takes
  have hbranch : branching.IsMethodRun false [⟨⟨1, 0⟩, 0⟩] := by
    refine ⟨?_, .singleton _⟩
    rintro s ⟨⟩
    exact ⟨rfl, rfl⟩
  have hrefines : Refines branching w false :=
    ha.splices.refines hlinked (hp.blocks_balanced ⟨rfl, rfl⟩ hempty ha)
  obtain ⟨run, hrun, herase⟩ := hrefines.exists_isMethodRun hbranch
  have hmem : (⟨⟨1, 0⟩, 0⟩ : FlowState) ∈ run :=
    List.mem_of_mem_filter (p := fun s => branching.instructions.contains s.handle)
      (by
        show _ ∈ branching.erase run
        simp [herase])
  obtain ⟨front, back, rfl⟩ := List.append_of_mem hmem
  have hget : w.instructions.get? ⟨1, 0⟩ = some ⟨.br, .target ⟨1, 1⟩⟩ :=
    ha.splices.get?_old rfl
  have hstep : w.Step false ⟨⟨1, 0⟩, 0⟩ ⟨⟨1, 1⟩, 0⟩ :=
    .jump ⟨hget, ⟨0, 0⟩, rfl, Nat.le_refl 0, rfl⟩ rfl (by decide) List.mem_cons_self
  obtain ⟨front', back', heq, hback⟩ := hcall _ _ _ (hrun.turn hstep) rfl
  -- the last instruction before the return is the branch and not the call
  obtain ⟨back', u, rfl⟩ : ∃ xs u, back' = xs ++ [u] := by
    rcases List.eq_nil_or_concat back' with rfl | ⟨xs, u, rfl⟩
    · rw [← hback] at hcode
      simp [exitCall] at hcode
    · exact ⟨xs, u, by simp⟩
  obtain rfl : ⟨⟨1, 0⟩, 0⟩ = u := by simpa using congrArg List.getLast? heq
  have hlast := congrArg List.getLast? hcode
  rw [← hback, List.map_append, List.map_append, List.map_singleton,
    List.map_singleton, List.getLast?_concat, hget] at hlast
  simp [exitCall, Instruction.call] at hlast

end Instrumentation
