import Instrumentation.Proofs.Weaving.InsertionOutcome

/-!
# Plans that fail

Before a plan is applied its anchors and its slots are checked, all of them at
once, and a plan that is refused then changes nothing. What is not checked
beforehand is whether the stack effects of every insertion can be told: that
each insertion finds out when its turn comes, and the insertions before it have
been made by then. A plan that breaks off in this way leaves its first
insertions in the method.

No log call has such a fault, so a plan made by planning is applied as a whole
or not at all.

Sections: §1 the first fault · §2 plans.
-/

namespace Instrumentation

open InstructionList

/-! ## §1  The first fault -/

namespace MethodDef

variable {m m' : MethodDef Body} {b : Body} {step : Handle × Insertion}
  {front back steps : List (Handle × Insertion)}

theorem insertAll_append (hok : m.insertAll front = (.ok (), m')) :
    m.insertAll (front ++ back) = m'.insertAll back := by
  induction front generalizing m with
  | nil =>
      obtain rfl : m = m' := (Prod.mk.inj hok).2
      rfl
  | cons step front ih =>
      rw [insertAll] at hok
      rw [List.cons_append, insertAll]
      split at hok
      · exact ih hok
      · simp at hok

/-- Either the stack effects of all insertions can be told, or there is a first
whose cannot. -/
theorem all_told_or_malformed (steps : List (Handle × Insertion)) :
    (∀ step ∈ steps, ∃ added, step.2.peak = .ok added) ∨
      ∃ front step back cause, steps = front ++ step :: back ∧
        (∀ x ∈ front, ∃ added, x.2.peak = .ok added) ∧
        step.2.peak = .error cause := by
  rcases forall_or_first
      (fun step : Handle × Insertion => ∃ added, step.2.peak = .ok added) steps
    with htold | ⟨front, step, back, hsplit, hfront, hstep⟩
  · exact .inl htold
  · cases hpeak : step.2.peak with
    | ok added => exact absurd ⟨added, hpeak⟩ hstep
    | error cause => exact .inr ⟨front, step, back, cause, hsplit, hfront, hpeak⟩

/-- Insertions that fit break off at the first whose stack effects cannot be
told. -/
theorem insertAll_of_malformed {cause : VerifyError} (hbody : m.body? = some b)
    (hfits : b.Fits (front ++ step :: back))
    (hfront : ∀ x ∈ front, ∃ added, x.2.peak = .ok added)
    (hstep : step.2.peak = .error cause) :
    ∃ w, m.insertAll front = (.ok (), m.withBody (some w)) ∧ b.Grown w front ∧
      m.insertAll (front ++ step :: back) =
        (.error (.malformedSequence cause), m.withBody (some w)) := by
  obtain ⟨hbefore, hthen⟩ := hfits.of_append
  obtain ⟨w, hok, hw⟩ := insertAll_of_fits hbody hbefore hfront
  have hsplit : w.Fits ([step] ++ back) := hthen hw
  obtain ⟨hone, -⟩ := hsplit.of_append
  have hbad :=
    (insertBefore_of_step (m := m.withBody (some w)) rfl hone).1 cause hstep
  refine ⟨w, hok, hw, ?_⟩
  rw [insertAll_append hok, insertAll, hbad]

/-! ## §2  Plans -/

def refusal? (m : MethodDef Body) (p : Plan) : Option InsertionError :=
  match m.body? with
  | none => some (.noBody m.name)
  | some b => m.planFault? b (p.entry :: p.exits)

theorem exists_body_of_refusal? {p : Plan} (hnone : m.refusal? p = none) :
    ∃ b, m.body? = some b := by
  cases hbody : m.body? with
  | none => simp [refusal?, hbody] at hnone
  | some b => exact ⟨b, rfl⟩

theorem fits_of_refusal? {p : Plan}
    (hbody : m.body? = some b) (hnone : m.refusal? p = none)
    (hroom : b.instructions.size + p.length ≤ capacity) :
    b.Fits (p.entry :: p.exits) := by
  simp only [refusal?, hbody] at hnone
  obtain ⟨hanchors, hslots⟩ := planFault?_eq_none_iff.mp hnone
  rw [Plan.length] at hroom
  exact ⟨hanchors, hslots, by omega⟩

theorem apply_of_refusal? {p : Plan} {e : InsertionError}
    (hsome : m.refusal? p = some e) : m.apply p = (.error e, m) := by
  unfold refusal? at hsome
  cases hbody : m.body? with
  | none =>
      simp only [hbody] at hsome
      rw [apply, hbody, Option.some.inj hsome]
  | some b =>
      simp only [hbody] at hsome
      rw [apply, hbody]
      simp only [hsome]

theorem apply_of_insertAll {p : Plan} {answer : Except InsertionError Unit}
    (hbody : m.body? = some b) (hnone : m.refusal? p = none)
    (hall : m.insertAll (p.entry :: p.exits) = (answer, m')) :
    m.apply p = (answer.map fun _ => p.exits.length, m') := by
  simp only [refusal?, hbody] at hnone
  simp only [apply, hbody, hnone, hall]
  cases answer <;> rfl

/-- A plan made by planning, for this method or for another, is applied as a
whole or not at all. -/
theorem apply_of_plan {m₀ : MethodDef Body} {logger : FieldRef} {callable : MethodRef}
    {exit : ExitLogging} {p : Plan} (hplan : m₀.plan logger callable exit = .ok p)
    (hroom : ∀ b, m.body? = some b → b.instructions.size + p.length ≤ capacity) :
    (∃ m', m.apply p = (.ok p.exits.length, m')) ∨
      ∃ e, m.apply p = (.error e, m) := by
  obtain ⟨b₀, hp⟩ := plan_eq_ok hplan
  cases hrefusal : m.refusal? p with
  | some e => exact .inr ⟨e, apply_of_refusal? hrefusal⟩
  | none =>
      obtain ⟨b, hbody⟩ := exists_body_of_refusal? hrefusal
      obtain ⟨w, hall, -⟩ := insertAll_of_fits hbody
        (fits_of_refusal? hbody hrefusal (hroom b hbody))
        fun step hstep => Insertion.exists_peak (hp.plain step hstep)
      exact .inl ⟨_, apply_of_insertAll hbody hrefusal hall⟩

/-- A plan fails in one of two ways. Either it is refused, for want of a body,
an anchor or slots, and then the method is as it was. Or all of that is in order
and the stack effects of one of its insertions cannot be told, and then every
insertion before that one has been made and stays in the method. -/
theorem apply_eq_error_iff (m m' : MethodDef Body) (p : Plan) (e : InsertionError)
    (hroom : ∀ b, m.body? = some b → b.instructions.size + p.length ≤ capacity) :
    m.apply p = (.error e, m') ↔
      m.refusal? p = some e ∧ m' = m ∨
      m.refusal? p = none ∧ ∃ front step back cause b w,
        p.entry :: p.exits = front ++ step :: back ∧
        (∀ x ∈ front, ∃ added, x.2.peak = .ok added) ∧
        step.2.peak = .error cause ∧ e = .malformedSequence cause ∧ m.body? = some b ∧
        m.insertAll front = (.ok (), m') ∧ m' = m.withBody (some w) ∧
        b.Grown w front := by
  cases hrefusal : m.refusal? p with
  | some e' =>
      rw [apply_of_refusal? hrefusal]
      simp [eq_comm]
  | none =>
      obtain ⟨b, hbody⟩ := exists_body_of_refusal? hrefusal
      have hfits := fits_of_refusal? hbody hrefusal (hroom b hbody)
      simp only [reduceCtorEq, false_and, false_or, true_and]
      constructor
      · intro happly
        -- all that can still go wrong is an insertion whose effects cannot be
        -- told, and the first such ends it
        rcases all_told_or_malformed (p.entry :: p.exits) with
          hsteps | ⟨front, step, back, cause, hsplit, hfront, hcause⟩
        · obtain ⟨w, hall, -⟩ := insertAll_of_fits hbody hfits hsteps
          rw [apply_of_insertAll hbody hrefusal hall] at happly
          simp [Except.map] at happly
        · rw [hsplit] at hfits
          obtain ⟨w, hok, hw, hall⟩ :=
            insertAll_of_malformed hbody hfits hfront hcause
          rw [← hsplit] at hall
          rw [apply_of_insertAll hbody hrefusal hall] at happly
          obtain ⟨herror, rfl⟩ := Prod.mk.inj happly
          obtain rfl := Except.error.inj herror
          exact ⟨front, step, back, cause, b, w, hsplit, hfront, hcause, rfl,
            hbody, hok, rfl, hw⟩
      · rintro ⟨front, step, back, cause, b', w, hsplit, hfront, hcause, rfl,
          hbody', hok, rfl, -⟩
        obtain rfl : b = b' := Option.some.inj (hbody.symm.trans hbody')
        rw [hsplit] at hfits
        obtain ⟨w', hok', -, hall⟩ := insertAll_of_malformed hbody hfits hfront hcause
        rw [(Prod.mk.inj (hok'.symm.trans hok)).2, ← hsplit] at hall
        exact apply_of_insertAll hbody hrefusal hall

end MethodDef

/-- A plan for a method that waits, whose exit call names no method. -/
def halfPlan : Plan :=
  ⟨(⟨1, 0⟩, ⟨[⟨.nop, .none⟩], []⟩), [(⟨1, 2⟩, ⟨[⟨.call, .none⟩], []⟩)]⟩

theorem room_for_halfPlan (b : Body) (hbody : waitingMethod.body? = some b) :
    b.instructions.size + halfPlan.length < capacity := by
  obtain rfl : Body.waiting = b := Option.some.inj hbody
  decide

theorem apply_halfPlan :
    ∃ w, waitingMethod.apply halfPlan =
        (.error (.malformedSequence (.malformedOperand .call 0)),
          waitingMethod.withBody (some w)) ∧
      w.instructions.size = 4 := by
  have hfits : Body.waiting.Fits [halfPlan.entry] := ⟨by decide, by decide, by decide⟩
  have htold : ∀ step ∈ [halfPlan.entry], ∃ added, step.2.peak = .ok added := by
    rintro step hstep
    obtain rfl := List.mem_singleton.mp hstep
    exact ⟨0, rfl⟩
  obtain ⟨w, hok, hw⟩ :=
    MethodDef.insertAll_of_fits (m := waitingMethod) rfl hfits htold
  refine ⟨w, ?_, hw.size⟩
  have hroom := fun b hbody => Nat.le_of_lt (room_for_halfPlan b hbody)
  refine (waitingMethod.apply_eq_error_iff _ halfPlan _ hroom).mpr
    (.inr ⟨by decide +kernel, ?_⟩)
  exact ⟨[halfPlan.entry], _, [], _, Body.waiting, w, rfl, htold, rfl, rfl,
    rfl, hok, rfl, hw⟩

/-- Not every plan that fails leaves its method as it was. -/
theorem failed_plan_changes_method :
    ¬ ∀ (m m' : MethodDef Body) (p : Plan) (e : InsertionError),
      (∀ b, m.body? = some b → b.instructions.size + p.length < capacity) →
      m.apply p = (.error e, m') → m'.body? = m.body? := by
  intro halways
  have herror : (waitingMethod.apply halfPlan).1 =
      .error (.malformedSequence (.malformedOperand .call 0)) := by decide +kernel
  have hsame := halways waitingMethod (waitingMethod.apply halfPlan).2 halfPlan _
    room_for_halfPlan (Prod.ext herror rfl)
  have hgrown : (waitingMethod.apply halfPlan).2.body?.map (·.instructions.size) =
      some 4 := by decide +kernel
  rw [hsame] at hgrown
  exact absurd (Option.some.inj hgrown) (by decide)

end Instrumentation
