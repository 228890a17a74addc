import Instrumentation.Proofs.Flow.Verified
import Instrumentation.Proofs.Weaving.Insertions

/-!
# The control flow of an instrumented method

A plan, once applied, leaves the control flow of its method as it was: the new
body refines the old one. Its runs from the start of the method first go through
the entry call. No instruction names one of the call's, so once control is past
them it never comes back.

Sections: §1 the front of a body · §2 instructions that are passed once · §3
applied plans.
-/

namespace Instrumentation

open InstructionList

/-! ## §1  The front of a body -/

/-- Splices before other instructions leave the front of a body where it is. -/
theorem Splice.prefix_handles {b w : Body} {anchor : Handle}
    {block : List (Handle × Instruction Handle)} {front : List Handle}
    (hs : Splice b w anchor block) (hfront : front <+: b.instructions.handles)
    (hanchor : anchor ∉ front) : front <+: w.instructions.handles := by
  obtain ⟨before, after, hb, hw⟩ := hs.exists_handles
  have hupto : before ++ [anchor] <+: b.instructions.handles := ⟨after, by simp [hb]⟩
  have hbefore : front <+: before := by
    rcases List.prefix_or_prefix_of_prefix hfront hupto with hshort | hlong
    · rcases List.prefix_concat_iff.mp hshort with heq | hbefore
      · exact absurd (by simp [heq]) hanchor
      · exact hbefore
    · exact absurd (hlong.subset (by simp)) hanchor
  rw [hw]
  exact hbefore.trans (List.prefix_append _ _)

theorem Splices.prefix_handles {b w : Body} {blocks : List Placed}
    {front : List Handle} (hs : Splices b blocks w)
    (hfront : front <+: b.instructions.handles)
    (hanchors : ∀ x ∈ blocks, x.1 ∉ front) : front <+: w.instructions.handles := by
  induction hs with
  | nil => exact hfront
  | cons hsplice _ ih =>
      obtain ⟨hfirst, hrest⟩ := List.forall_mem_cons.mp hanchors
      exact ih (hsplice.prefix_handles hfront hfirst) hrest

/-! ## §2  Instructions that are passed once -/

namespace Body

variable {w : Body} {returnsValue : Bool} {s t t' : FlowState} {front : List Handle}

/-- Plain instructions at the front of a body that no instruction names. -/
structure IsLeadIn (w : Body) (front : List Handle) : Prop where
  first : front <+: w.instructions.handles
  plain : ∀ h ∈ front, ∃ i, w.instructions.get? h = some i ∧ i.IsPlain
  untargeted : ∀ {h i}, w.instructions.get? h = some i → ∀ t ∈ i.targets, t ∉ front

/-- The instruction before one of a front is one of its too, and not the last. -/
theorem mem_dropLast_of_next? {h k : Handle}
    (hfront : front <+: w.instructions.handles)
    (hnext : w.instructions.next? h = some k) (hk : k ∈ front) :
    h ∈ front.dropLast := by
  obtain ⟨back, hback⟩ := hfront
  have hnd := w.instructions.nodup_handles
  rw [← hback] at hnd
  have hnot : k ∉ back := List.disjoint_of_nodup_append hnd hk
  rw [next?_eq_some_iff, ← hback, List.infix_append_iff_ne_nil] at hnext
  rcases hnext with ⟨xs, ys, rfl⟩ | hin | ⟨xs, ys, hxs, hys, heq, hsuf, hpre⟩
  · simp
  · exact absurd (hin.subset (by simp)) hnot
  · have hlast : k ∈ ys := by
      rcases xs with - | ⟨x, - | ⟨x', xs⟩⟩
      · exact absurd rfl hxs
      · obtain ⟨-, rfl⟩ := List.cons.inj heq
        exact List.mem_singleton_self k
      · simp_all
    exact absurd (hpre.subset hlast) hnot

/-- Control does not come into a lead-in but from inside. -/
theorem IsLeadIn.step (hw : w.IsLeadIn front) (hstep : w.Step returnsValue s t)
    (hs : s.handle ∉ front.dropLast) : t.handle ∉ front := by
  cases hstep with
  | next hi hfall hnext =>
      exact fun hmem => hs (mem_dropLast_of_next? hw.first hnext hmem)
  | jump hi hfollows hne hmem => exact hw.untargeted hi.1 _ hmem
  | leave hi hop hmem => exact hw.untargeted hi.1 _ hmem

/-- Past a lead-in control stays out of it. -/
theorem IsLeadIn.stays_out (hw : w.IsLeadIn front) {run : List FlowState}
    (hrun : (s :: run).IsChain (w.Step returnsValue))
    (hs : s.handle ∉ front.dropLast) : ∀ x ∈ run, x.handle ∉ front := by
  induction run generalizing s with
  | nil => simp
  | cons t run ih =>
      obtain ⟨hstep, hrest⟩ := List.isChain_cons_cons.mp hrun
      have ht : t.handle ∉ front := hw.step hstep hs
      exact List.forall_mem_cons.mpr ⟨ht, ih hrest fun hmem =>
        ht (List.mem_of_mem_dropLast hmem)⟩

/-- From inside a lead-in there is one way, to its end; and from there none
leads back. -/
theorem IsLeadIn.isChain (hw : w.IsLeadIn front) {done : List Handle}
    {lead run : List FlowState} (hfront : front = done ++ (s :: lead).map (·.handle))
    (hlead : (s :: lead).IsChain (w.Step returnsValue))
    (hrun : (s :: run).IsChain (w.Step returnsValue)) :
    run <+: lead ∨ ∃ rest, run = lead ++ rest ∧ ∀ x ∈ rest, x.handle ∉ front := by
  -- by induction on the lead: a plain instruction leaves no choice, and the
  -- last one is only left behind
  induction lead generalizing s done run with
  | nil =>
      have hnd : front.Nodup := w.instructions.nodup_handles.sublist hw.first.sublist
      have hlast : s.handle ∉ front.dropLast := by
        rw [hfront, List.map_singleton] at hnd ⊢
        rw [List.dropLast_concat]
        exact fun hmem => List.disjoint_of_nodup_append hnd hmem List.mem_cons_self
      exact .inr ⟨run, rfl, hw.stays_out hrun hlast⟩
  | cons t lead ih =>
      cases run with
      | nil => exact .inl (List.nil_prefix)
      | cons t' run =>
          obtain ⟨hstep, hlead'⟩ := List.isChain_cons_cons.mp hlead
          obtain ⟨hstep', hrun'⟩ := List.isChain_cons_cons.mp hrun
          obtain ⟨i, hi, hplain⟩ := hw.plain s.handle (by simp [hfront])
          obtain rfl := hplain.step_unique hi hstep hstep'
          have hfront' :
              front = done ++ [s.handle] ++ (t :: lead).map (·.handle) := by
            simp [hfront]
          rcases ih hfront' hlead' hrun' with hpre | ⟨rest, rfl, hrest⟩
          · exact .inl (List.cons_prefix_cons.mpr ⟨rfl, hpre⟩)
          · exact .inr ⟨rest, rfl, hrest⟩

theorem AtStart.unique (hs : w.AtStart s) (ht : w.AtStart t) : s = t := by
  obtain ⟨h, d⟩ := s
  obtain ⟨h', d'⟩ := t
  obtain ⟨hfirst, rfl⟩ := hs
  obtain ⟨hfirst', rfl⟩ := ht
  obtain rfl : h = h' := Option.some.inj (hfirst.symm.trans hfirst')
  rfl

/-- Every run of the method goes through its lead-in, in the same states, and
then stays out of it. -/
theorem IsLeadIn.isMethodRun (hw : w.IsLeadIn front) {lead run : List FlowState}
    (hfront : lead.map (·.handle) = front) (hlead : w.IsMethodRun returnsValue lead)
    (hrun : w.IsMethodRun returnsValue run) :
    run <+: lead ∨ ∃ rest, run = lead ++ rest ∧ ∀ x ∈ rest, x.handle ∉ front := by
  cases lead with
  | nil => exact .inr ⟨run, rfl, by simp [← hfront]⟩
  | cons s lead =>
      cases run with
      | nil => exact .inl List.nil_prefix
      | cons s' run =>
          obtain rfl : s = s' := (hlead.1 s rfl).unique (hrun.1 s' rfl)
          have hdone : front = [] ++ (s :: lead).map (·.handle) := hfront.symm
          rcases hw.isChain hdone hlead.2 hrun.2 with hpre | ⟨rest, rfl, hrest⟩
          · exact .inl (List.cons_prefix_cons.mpr ⟨rfl, hpre⟩)
          · exact .inr ⟨rest, rfl, hrest⟩

/-- Control goes through plain code at the front of a body. -/
theorem exists_lead (returnsValue : Bool)
    {code : List (Handle × Instruction Handle)} {h : Handle} {after : Nat}
    (hcode : ∀ e ∈ code, w.instructions.get? e.1 = some e.2 ∧ e.2.IsPlain)
    (hplace : code.map (·.1) ++ [h] <+: w.instructions.handles)
    (hdepth : depthAfter 0 (code.map (·.2)) = some after) :
    ∃ lead, w.IsMethodRun returnsValue lead ∧
      lead.map (·.handle) = code.map (·.1) := by
  obtain ⟨walk, hhandles, hchain, hhead⟩ :=
    exists_walk (t := ⟨h, after⟩) returnsValue hcode hplace.isInfix hdepth
  refine ⟨walk, ⟨?_, hchain.left_of_append⟩, hhandles⟩
  intro s hs
  obtain ⟨walk, rfl⟩ := List.head?_eq_some_iff.mp hs
  refine ⟨?_, hhead s rfl⟩
  obtain ⟨back, hback⟩ := hplace
  rw [first?_eq_head?, ← hback, ← hhandles]
  rfl

end Body

/-! ## §3  Applied plans -/

theorem Splice.prefix_of_first {b w : Body} {anchor : Handle}
    {block : List (Handle × Instruction Handle)} (hs : Splice b w anchor block)
    (hfirst : b.instructions.first? = some anchor) :
    block.map (·.1) ++ [anchor] <+: w.instructions.handles := by
  obtain ⟨front, back, hb, hw⟩ := hs.exists_handles
  have hnd := b.instructions.nodup_handles
  rw [first?_eq_head?, hb] at hfirst
  cases front with
  | nil => exact ⟨back, by simp [hw]⟩
  | cons f front =>
      obtain rfl : f = anchor := by simpa using hfirst
      rw [hb] at hnd
      simp at hnd

/-- The entry call comes first. -/
theorem Plan.Suits.entry_prefix {p : Plan} {m : MethodDef Body} {b w : Body}
    {logger : FieldRef} {callable : MethodRef} {exit : ExitLogging}
    {entry : List (Handle × Instruction Handle)} {exits : List Placed}
    (hp : p.Suits m b logger callable exit) (ha : p.Applied b w entry exits) :
    entry.map (·.1) <+: w.instructions.handles := by
  obtain ⟨hsplices, -, hexits⟩ := ha
  have hnew : ∀ h ∈ entry.map (·.1), b.instructions.contains h = false :=
    fun _ => hsplices.not_contains_of_mem List.mem_cons_self
  cases hsplices with
  | cons hfirst hrest =>
      refine hrest.prefix_handles
        ((List.prefix_append _ _).trans (hfirst.prefix_of_first hp.first)) ?_
      intro x hx hmem
      obtain ⟨step, hstep, heq, -⟩ := exists_step_of_block hexits hx
      have hin := hp.contains step (List.mem_cons_of_mem _ hstep)
      rw [heq, hnew _ hmem] at hin
      simp at hin

/-- The entry call is passed once: it comes first, and no other instruction
names one of its. -/
theorem Plan.Suits.isLeadIn {p : Plan} {m : MethodDef Body} {b w : Body}
    {logger : FieldRef} {callable : MethodRef} {exit : ExitLogging}
    {entry : List (Handle × Instruction Handle)} {exits : List Placed}
    (hp : p.Suits m b logger callable exit) (hlinked : b.IsLinked)
    (ha : p.Applied b w entry exits) : w.IsLeadIn (entry.map (·.1)) := by
  have hsplices := ha.splices
  have hnew : ∀ h ∈ entry.map (·.1), b.instructions.contains h = false :=
    fun _ => hsplices.not_contains_of_mem List.mem_cons_self
  refine ⟨hp.entry_prefix ha, ?_, ?_⟩
  · intro h hh
    obtain ⟨e, he, rfl⟩ := List.mem_map.mp hh
    exact ⟨e.2, hsplices.get?_iff.mpr (.inr ⟨_, List.mem_cons_self, he⟩),
      hsplices.plain _ List.mem_cons_self e he⟩
  · intro h i hi t ht hmem
    have hin := hlinked.targets (hsplices.get?_old_of_target hi ht) t ht
    rw [hnew t hmem] at hin
    simp at hin

theorem Plan.Suits.mem_entry_of_first? {p : Plan} {m : MethodDef Body}
    {b w : Body} {logger : FieldRef} {callable : MethodRef} {exit : ExitLogging}
    {entry : List (Handle × Instruction Handle)} {exits : List Placed}
    {h : Handle} (hp : p.Suits m b logger callable exit) (hlinked : b.IsLinked)
    (ha : p.Applied b w entry exits) (hfirst : w.instructions.first? = some h) :
    h ∈ entry.map (·.1) := by
  have hlead := hp.isLeadIn hlinked ha
  have hentry := ha.entryCode
  cases entry with
  | nil => simp [hp.entry, entryCode] at hentry
  | cons e entry =>
      obtain ⟨back, hback⟩ := hlead.first
      rw [first?_eq_head?, ← hback] at hfirst
      obtain rfl : e.1 = h := Option.some.inj hfirst
      exact List.mem_cons_self

/-- Applying a plan changes nothing about the control flow of a method. The new
body has the runs of the old one, with new states in between; and each of its
runs from the start of the method goes through the entry call, as far as it
gets, and never comes back to it. -/
theorem MethodDef.apply_refines (m : MethodDef Body) (b : Body) (logger : FieldRef)
    (callable : MethodRef) (exit : ExitLogging) (p : Plan) (hbody : m.body? = some b)
    (hlinked : b.IsLinked) (hcallable : callable.TakesLog)
    (hempty : ∀ emptyArray message, exit = .enabled emptyArray message →
      emptyArray.GivesArray) (hplan : m.plan logger callable exit = .ok p) :
    (b.instructions.size + p.length ≤ capacity →
      ∃ m', m.apply p = (.ok p.exits.length, m')) ∧
    ∀ n m', m.apply p = (.ok n, m') →
      ∃ w, m'.body? = some w ∧ Refines b w m.returnsValue ∧
        ∃ lead, w.IsMethodRun m.returnsValue lead ∧
          lead.map (fun s => w.instructions.get? s.handle) =
            p.entry.2.instructions.map some ∧
          (∀ s ∈ lead, b.instructions.contains s.handle = false) ∧
          ∀ run, w.IsMethodRun m.returnsValue run →
            run <+: lead ∨ ∃ rest, run = lead ++ rest ∧
              ∀ s ∈ rest, ∀ t ∈ lead, s.handle ≠ t.handle := by
  obtain ⟨b', hp⟩ := plan_eq_ok hplan
  obtain rfl : b = b' := Option.some.inj (hbody.symm.trans hp.body)
  refine ⟨hp.apply_ok, ?_⟩
  intro n m' hok
  obtain ⟨-, w, entry, exits, rfl, ha, -, -⟩ := hp.applied hok
  have hbalanced := hp.blocks_balanced hcallable hempty ha
  have hlead := hp.isLeadIn hlinked ha
  obtain ⟨hsplices, hentry, -⟩ := ha
  have hnew : ∀ h ∈ entry.map (·.1), b.instructions.contains h = false :=
    fun _ => hsplices.not_contains_of_mem List.mem_cons_self
  have hcode : ∀ e ∈ entry, w.instructions.get? e.1 = some e.2 ∧ e.2.IsPlain := by
    intro e he
    exact ⟨hsplices.get?_iff.mpr (.inr ⟨_, List.mem_cons_self, he⟩),
      hsplices.plain _ List.mem_cons_self e he⟩
  have hanchor : p.entry.1 ∈ w.instructions.handles :=
    mem_handles.mpr (hsplices.contains_old (Body.contains_of_first? hp.first))
  obtain ⟨back, hback⟩ := hlead.first
  cases back with
  | nil =>
      rw [List.append_nil] at hback
      have hfalse := hnew _ (hback ▸ hanchor)
      simp [Body.contains_of_first? hp.first] at hfalse
  | cons h back =>
      have hplace : entry.map (·.1) ++ [h] <+: w.instructions.handles :=
        ⟨back, by simp [hback]⟩
      obtain ⟨lead, hrun, hhandles⟩ := Body.exists_lead m.returnsValue hcode hplace
        (hbalanced _ List.mem_cons_self)
      refine ⟨w, rfl, hsplices.refines hlinked hbalanced, lead, hrun, ?_, ?_, ?_⟩
      · calc lead.map (fun s => w.instructions.get? s.handle)
            = (lead.map (·.handle)).map w.instructions.get? := by
              rw [List.map_map]; rfl
          _ = (entry.map (·.1)).map w.instructions.get? := by rw [hhandles]
          _ = (entry.map (·.2)).map some := hsplices.map_get? List.mem_cons_self
          _ = p.entry.2.instructions.map some := by rw [hentry]
      · intro s hs
        exact hnew _ (hhandles ▸ List.mem_map_of_mem hs)
      · intro run hmethod
        rcases hlead.isMethodRun hhandles hrun hmethod with hpre | ⟨rest, rfl, hrest⟩
        · exact .inl hpre
        · refine .inr ⟨rest, rfl, ?_⟩
          intro s hs t ht heq
          exact hrest s hs (hhandles ▸ heq ▸ List.mem_map_of_mem ht)

def waitingMethod : MethodDef Body :=
  { name := "Wait", visibility := .publicAccess, isStatic := false,
    genericParams := []
    params := [⟨"ready", .primitive .boolean⟩], returnType := .void,
    body? := some Body.waiting }

def sampleLogger : FieldRef :=
  ⟨.reference ⟨"App", "Service"⟩, "logger",
    .generic ⟨"Microsoft.Extensions.Logging", "ILogger`1"⟩ false
    [.reference ⟨"App", "Service"⟩]⟩

def logInformation : MethodRef :=
  { scope? := some "Microsoft.Extensions.Logging.Abstractions"
    declaringType := .reference ⟨"Microsoft.Extensions.Logging", "LoggerExtensions"⟩
    name := "LogInformation"
    hasThis := false
    params :=
      [.reference ⟨"Microsoft.Extensions.Logging", "ILogger"⟩, .string, .objects]
    returnType := .void
    genericArgs := [] }

def arrayEmpty : MethodRef :=
  { scope? := some "netstandard"
    declaringType := .reference ⟨"System", "Array"⟩
    name := "Empty"
    hasThis := false
    params := []
    returnType := .array (.methodParam 0)
    genericArgs := [.object] }

def waitingPlan : Plan :=
  ⟨(⟨1, 0⟩, ⟨entryCode waitingMethod sampleLogger logInformation 0, [.objects]⟩),
    [(⟨1, 2⟩, exitCall sampleLogger logInformation arrayEmpty "Method exit")]⟩

theorem apply_refines_waiting :
    ∃ m' w, waitingMethod.apply waitingPlan = (.ok 1, m') ∧
      m'.body? = some w ∧ Refines Body.waiting w false := by
  have hlinked : Body.waiting.IsLinked :=
    (Body.verify_eq_ok_iff.mp Body.verify_waiting).1.isLinked
  have hempty : ∀ emptyArray message,
      ExitLogging.enabled arrayEmpty "Method exit" = .enabled emptyArray message →
      emptyArray.GivesArray := by
    rintro _ _ ⟨⟩
    exact ⟨rfl, rfl⟩
  have hplan : waitingMethod.plan sampleLogger logInformation
      (.enabled arrayEmpty "Method exit") = .ok waitingPlan := rfl
  obtain ⟨hok, hflow⟩ := waitingMethod.apply_refines Body.waiting sampleLogger
    logInformation (.enabled arrayEmpty "Method exit") waitingPlan rfl hlinked
    ⟨rfl, rfl⟩ hempty hplan
  obtain ⟨m', hm'⟩ := hok (by decide)
  obtain ⟨w, hw, hrefines, -⟩ := hflow _ _ hm'
  exact ⟨m', w, hm', hw, hrefines⟩

end Instrumentation
