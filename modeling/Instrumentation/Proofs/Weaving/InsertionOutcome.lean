import Instrumentation.Proofs.Weaving.ControlFlow

/-!
# What becomes of an insertion

An insertion is checked before anything is changed: there must be a body, the
anchor must be one of its instructions, there must be slots for the new locals,
and of every new instruction it must be possible to say what it does to the
stack. Whatever is wrong, the method stays as it was. If nothing is wrong, the
insertion is made, into any body: the flow of control need not make sense, in
the old code as little as in the new, and the declared stack is then widened
without an analysis.

Sections: §1 stack effects that can be told · §2 refusals · §3 the outcome.
-/

namespace Instrumentation

open InstructionList

/-! ## §1  Stack effects that can be told -/

/-- Something holds of all elements of a list, or there is a first of which it
does not hold. -/
theorem forall_or_first {α : Type} (p : α → Prop) (xs : List α) :
    (∀ x ∈ xs, p x) ∨
      ∃ front x back, xs = front ++ x :: back ∧ (∀ y ∈ front, p y) ∧ ¬ p x := by
  induction xs with
  | nil => exact .inl (by simp)
  | cons x xs ih =>
      by_cases hx : p x
      · rcases ih with hall | ⟨front, y, back, rfl, hfront, hy⟩
        · exact .inl (List.forall_mem_cons.mpr ⟨hx, hall⟩)
        · exact .inr ⟨x :: front, y, back, rfl,
            List.forall_mem_cons.mpr ⟨hx, hfront⟩, hy⟩
      · exact .inr ⟨[], x, xs, rfl, by simp, hx⟩

theorem Instruction.HasEffect.ne_error {ρ : Type} {i : Instruction ρ}
    {cause : VerifyError} {position : Nat} (hi : i.HasEffect) :
    i.effect false position ≠ .error cause := by
  obtain ⟨e, he⟩ := hi
  rw [effect_position position he]
  exact nofun

theorem Instruction.exists_effect_error {ρ : Type} {i : Instruction ρ}
    (hi : ¬ i.HasEffect) (position : Nat) :
    ∃ cause, i.effect false position = .error cause := by
  cases heffect : i.effect false position with
  | ok e => exact absurd ⟨e, effect_position 0 heffect⟩ hi
  | error cause => exact ⟨cause, rfl⟩

namespace Insertion

variable {front back : List (Instruction Handle)} {i : Instruction Handle}
  {s : Insertion}

theorem peakFrom_of_fault {cause : VerifyError}
    {position depth peak : Nat} (hfront : ∀ j ∈ front, j.HasEffect)
    (hi : i.effect false (position + front.length) = .error cause) :
    peakFrom position depth peak (front ++ i :: back) = .error cause := by
  induction front generalizing position depth peak with
  | nil =>
      have hi : i.effect false position = .error cause := hi
      rw [List.nil_append, peakFrom, hi]
      rfl
  | cons j front ih =>
      obtain ⟨⟨e, he⟩, hrest⟩ := List.forall_mem_cons.mp hfront
      rw [List.cons_append, peakFrom, Instruction.effect_position position he]
      apply ih hrest
      rwa [List.length_cons, ← Nat.add_assoc, Nat.add_right_comm] at hi

/-- The stack effects of an insertion can be told, or there is a first one that
cannot. -/
theorem told_or_fault (s : Insertion) :
    (∀ i ∈ s.instructions, i.HasEffect) ∨
      ∃ front i back cause, s.instructions = front ++ i :: back ∧
        (∀ j ∈ front, j.HasEffect) ∧
        i.effect false front.length = .error cause := by
  rcases forall_or_first Instruction.HasEffect s.instructions
    with htold | ⟨front, i, back, hsplit, hfront, hi⟩
  · exact .inl htold
  · obtain ⟨cause, hcause⟩ := Instruction.exists_effect_error hi front.length
    exact .inr ⟨front, i, back, cause, hsplit, hfront, hcause⟩

/-- Where the need cannot be told, the first instruction whose stack effect
cannot be told is to blame. -/
theorem peak_eq_error_iff {cause : VerifyError} :
    s.peak = .error cause ↔
      ∃ front i back, s.instructions = front ++ i :: back ∧
        (∀ j ∈ front, j.HasEffect) ∧ i.effect false front.length = .error cause := by
  have hfault : ∀ {front i back cause}, s.instructions = front ++ i :: back →
      (∀ j ∈ front, j.HasEffect) →
      i.effect false front.length = .error cause → s.peak = .error cause := by
    intro front i back cause hsplit hfront hcause
    rw [peak, hsplit]
    exact peakFrom_of_fault hfront (by rwa [Nat.zero_add])
  constructor
  · intro hpeak
    rcases s.told_or_fault
      with htold | ⟨front, i, back, cause', hsplit, hfront, hcause⟩
    · obtain ⟨n, hn⟩ := exists_peakFrom htold 0 0 0
      rw [peak, hn] at hpeak
      cases hpeak
    · obtain rfl : cause' = cause :=
        Except.error.inj ((hfault hsplit hfront hcause).symm.trans hpeak)
      exact ⟨front, i, back, hsplit, hfront, hcause⟩
  · rintro ⟨front, i, back, hsplit, hfront, hcause⟩
    exact hfault hsplit hfront hcause

theorem exists_peak_iff :
    (∃ added, s.peak = .ok added) ↔ ∀ i ∈ s.instructions, i.HasEffect := by
  constructor
  · rintro ⟨added, hadded⟩
    rcases s.told_or_fault with htold | ⟨front, i, back, cause, hfault⟩
    · exact htold
    · rw [peak_eq_error_iff.mpr ⟨front, i, back, hfault⟩] at hadded
      cases hadded
  · intro htold
    exact exists_peakFrom htold 0 0 0

end Insertion

/-! ## §2  Refusals -/

namespace MethodDef

/-- Why an insertion is refused; of several causes the one that is listed first. -/
inductive Refuses (m : MethodDef Body) (anchor : Handle) (s : Insertion) :
    InsertionError → Prop
  | noBody : m.body? = none → Refuses m anchor s (.noBody m.name)
  | unknownAnchor {b : Body} : m.body? = some b →
      b.instructions.contains anchor = false →
      Refuses m anchor s (.unknownAnchor m.name anchor)
  | tooManyLocals {b : Body} : m.body? = some b →
      b.instructions.contains anchor = true →
      Body.maxLocals < b.locals.size + s.newLocals.length →
      Refuses m anchor s (.tooManyLocals m.name)
  | malformed {b : Body} {front back : List (Instruction Handle)}
      {i : Instruction Handle} {cause : VerifyError} : m.body? = some b →
      b.instructions.contains anchor = true →
      b.locals.size + s.newLocals.length ≤ Body.maxLocals →
      s.instructions = front ++ i :: back →
      (∀ j ∈ front, j.HasEffect) → i.effect false front.length = .error cause →
      Refuses m anchor s (.malformedSequence cause)

variable {m : MethodDef Body} {anchor : Handle} {s : Insertion} {e : InsertionError}

theorem insertBefore_of_refuses (hrefuses : m.Refuses anchor s e) :
    m.insertBefore anchor s = (.error e, m) := by
  cases hrefuses with
  | noBody hbody => simp only [insertBefore, hbody]
  | unknownAnchor hbody hout =>
      simp only [insertBefore, hbody, hout, Bool.not_false, if_true]
  | tooManyLocals hbody hin hslots =>
      simp only [insertBefore, hbody, hin, Bool.not_true, Bool.false_eq_true,
        if_false, if_pos hslots]
  | malformed hbody hin hslots hsplit hfront hcause =>
      have hpeak := Insertion.peak_eq_error_iff.mpr ⟨_, _, _, hsplit, hfront, hcause⟩
      simp only [insertBefore, hbody, hin, Bool.not_true, Bool.false_eq_true,
        if_false, if_neg (Nat.not_lt.mpr hslots), hpeak]

/-- An insertion that is not refused has a body to go into, an anchor, slots and
stack effects that can be told. -/
theorem refuses_or_suits (m : MethodDef Body) (anchor : Handle) (s : Insertion) :
    (∃ e, m.Refuses anchor s e) ∨
      ∃ b, m.body? = some b ∧ b.instructions.contains anchor = true ∧
        b.locals.size + s.newLocals.length ≤ Body.maxLocals ∧
        ∀ i ∈ s.instructions, i.HasEffect := by
  cases hbody : m.body? with
  | none => exact .inl ⟨_, .noBody hbody⟩
  | some b =>
      cases hin : b.instructions.contains anchor with
      | false => exact .inl ⟨_, .unknownAnchor hbody hin⟩
      | true =>
          rcases Nat.lt_or_ge Body.maxLocals (b.locals.size + s.newLocals.length)
            with hslots | hslots
          · exact .inl ⟨_, .tooManyLocals hbody hin hslots⟩
          rcases s.told_or_fault
            with htold | ⟨front, i, back, cause, hsplit, hfront, hcause⟩
          · exact .inr ⟨b, rfl, hin, hslots, htold⟩
          · exact .inl ⟨_, .malformed hbody hin hslots hsplit hfront hcause⟩

theorem exists_refuses_iff :
    (∃ e, m.Refuses anchor s e) ↔
      m.body? = none ∨ ∃ b, m.body? = some b ∧
        (b.instructions.contains anchor = false ∨
          Body.maxLocals < b.locals.size + s.newLocals.length ∨
          ∃ i ∈ s.instructions, ¬ i.HasEffect) := by
  constructor
  · rintro ⟨e, hrefuses⟩
    cases hrefuses with
    | noBody hbody => exact .inl hbody
    | unknownAnchor hbody hout => exact .inr ⟨_, hbody, .inl hout⟩
    | tooManyLocals hbody _ hslots => exact .inr ⟨_, hbody, .inr (.inl hslots)⟩
    | @malformed _ front back i cause hbody _ _ hsplit _ hcause =>
        refine .inr ⟨_, hbody,
          .inr (.inr ⟨i, ?_, fun htold => htold.ne_error hcause⟩)⟩
        rw [hsplit]
        exact List.mem_append_right front List.mem_cons_self
  · -- where nothing refuses the insertion, none of the causes is there
    intro hcause
    rcases m.refuses_or_suits anchor s with hrefuses | ⟨b, hbody, hin, hslots, htold⟩
    · exact hrefuses
    rcases hcause with hnone | ⟨b', hbody', hout | hmany | ⟨i, hi, huntold⟩⟩
    · cases hnone.symm.trans hbody
    all_goals obtain rfl : b = b' := Option.some.inj (hbody.symm.trans hbody')
    · cases hout.symm.trans hin
    · exact absurd hslots (Nat.not_le.mpr hmany)
    · exact absurd (htold i hi) huntold

end MethodDef

/-! ## §3  The outcome -/

/-- One body is another with an insertion immediately before an instruction. All
it had is there as before, and the declared stack covers the need without being
smaller than it was. -/
structure Body.Receives (b w : Body) (anchor : Handle) (s : Insertion)
    (returnsValue : Bool) : Prop where
  placed : ∃ front i back block,
    b.instructions.entries = front ++ (anchor, i) :: back ∧
    w.instructions.entries = front ++ block ++ (anchor, i) :: back ∧
    block.map (·.2) = s.instructions ∧
    ∀ e ∈ block, b.instructions.contains e.1 = false
  locals : w.locals = b.locals ++ s.newLocals.toArray
  handlers : w.handlers = b.handlers
  initLocals : w.initLocals = b.initLocals
  grows : b.maxStack ≤ w.maxStack
  covers : w.CoversStack returnsValue

namespace MethodDef

variable {m : MethodDef Body} {anchor : Handle} {s : Insertion}

theorem exists_receives {b : Body} (hbody : m.body? = some b)
    (hin : b.instructions.contains anchor = true)
    (hslots : b.locals.size + s.newLocals.length ≤ Body.maxLocals)
    (htold : ∀ i ∈ s.instructions, i.HasEffect)
    (hroom : b.instructions.size + s.instructions.length ≤ capacity) :
    ∃ w, m.insertBefore anchor s = (.ok (), m.withBody (some w)) ∧
      b.Receives w anchor s m.returnsValue := by
  obtain ⟨added, hadded⟩ := Insertion.exists_peak_iff.mpr htold
  obtain ⟨p, hp, hok⟩ := insertBefore_eq hbody hin hslots (by omega) hadded
  have hlength := b.instructions.length_fresh s.instructions.length
  refine ⟨_, hok, ?_, Body.widenStack_locals ..,
    Body.widenStack_handlers .., Body.widenStack_initLocals ..,
    (b.insertAt p s).le_widenStack m.returnsValue added,
    (b.insertAt p s).coversStack_widenStack m.returnsValue added⟩
  obtain ⟨front, i, back, hold, hnew⟩ := entries_insertAt s.instructions hp
  refine ⟨front, i, back,
    (b.instructions.fresh s.instructions.length).zip s.instructions, hold, ?_,
    List.map_snd_zip (Nat.le_of_eq hlength.symm), ?_⟩
  · rw [Body.widenStack_instructions]
    exact hnew
  · intro e he
    exact not_contains_of_mem_fresh (List.of_mem_zip he).1

/-- An insertion that there is room for fails exactly if the method has no body,
the anchor is none of its instructions, the slots would be too many or the stack
effect of some new instruction cannot be told; the first of these is what it
reports, and the method stays as it was. Otherwise the insertion is made. -/
theorem insertBefore_outcome (m : MethodDef Body) (anchor : Handle) (s : Insertion)
    (hroom : ∀ b, m.body? = some b →
      b.instructions.size + s.instructions.length ≤ capacity) :
    ((∃ e m', m.insertBefore anchor s = (.error e, m')) ↔
      m.body? = none ∨ ∃ b, m.body? = some b ∧
        (b.instructions.contains anchor = false ∨
          Body.maxLocals < b.locals.size + s.newLocals.length ∨
          ∃ i ∈ s.instructions, ¬ i.HasEffect)) ∧
    (∀ e m', m.insertBefore anchor s = (.error e, m') ↔
      m.Refuses anchor s e ∧ m' = m) ∧
    ∀ m', m.insertBefore anchor s = (.ok (), m') →
      ∃ b w, m.body? = some b ∧ m' = m.withBody (some w) ∧
        b.Receives w anchor s m.returnsValue := by
  -- what is not refused is made, so that what fails was refused
  have herror : ∀ e m', m.insertBefore anchor s = (.error e, m') ↔
      m.Refuses anchor s e ∧ m' = m := by
    intro e m'
    constructor
    · intro hfail
      rcases m.refuses_or_suits anchor s
        with ⟨e', hrefuses⟩ | ⟨b, hbody, hin, hslots, htold⟩
      · obtain ⟨he, rfl⟩ :=
          Prod.mk.inj (hfail.symm.trans (insertBefore_of_refuses hrefuses))
        obtain rfl := Except.error.inj he
        exact ⟨hrefuses, rfl⟩
      · obtain ⟨w, hok, -⟩ := exists_receives hbody hin hslots htold (hroom b hbody)
        cases hfail.symm.trans hok
    · rintro ⟨hrefuses, rfl⟩
      exact insertBefore_of_refuses hrefuses
  refine ⟨?_, herror, ?_⟩
  · rw [← exists_refuses_iff]
    apply exists_congr
    intro e
    simp only [herror, exists_and_left, exists_eq, and_true]
  · intro m' hok
    rcases m.refuses_or_suits anchor s
      with ⟨e, hrefuses⟩ | ⟨b, hbody, hin, hslots, htold⟩
    · cases hok.symm.trans (insertBefore_of_refuses hrefuses)
    · obtain ⟨w, hmade, hreceives⟩ :=
        exists_receives hbody hin hslots htold (hroom b hbody)
      exact ⟨b, w, hbody, (Prod.mk.inj (hok.symm.trans hmade)).2, hreceives⟩

/-- A method that waits takes two instructions and a slot before its test, and
refuses a call of nothing. -/
theorem insertBefore_outcome_waiting :
    (∃ w, waitingMethod.insertBefore ⟨1, 1⟩
        ⟨[⟨.ldnull, .none⟩, ⟨.pop, .none⟩], [.objects]⟩ =
        (.ok (), waitingMethod.withBody (some w)) ∧
      Body.waiting.Receives w ⟨1, 1⟩
        ⟨[⟨.ldnull, .none⟩, ⟨.pop, .none⟩], [.objects]⟩ false) ∧
    waitingMethod.insertBefore ⟨1, 1⟩ ⟨[⟨.ldnull, .none⟩, ⟨.call, .none⟩], []⟩ =
      (.error (.malformedSequence (.malformedOperand .call 1)), waitingMethod) := by
  have hbody : ∀ b, waitingMethod.body? = some b → b = Body.waiting :=
    fun b hb => (Option.some.inj hb).symm
  constructor
  · obtain ⟨-, -, hmade⟩ := waitingMethod.insertBefore_outcome ⟨1, 1⟩
      ⟨[⟨.ldnull, .none⟩, ⟨.pop, .none⟩], [.objects]⟩ fun b hb => by
        rw [hbody b hb]; decide
    have hok : (waitingMethod.insertBefore ⟨1, 1⟩
        ⟨[⟨.ldnull, .none⟩, ⟨.pop, .none⟩], [.objects]⟩).1 = .ok () := by
      decide +kernel
    obtain ⟨b, w, hb, hw, hreceives⟩ := hmade _ (Prod.ext hok rfl)
    obtain rfl := hbody b hb
    exact ⟨w, Prod.ext hok hw, hreceives⟩
  · obtain ⟨-, herror, -⟩ := waitingMethod.insertBefore_outcome ⟨1, 1⟩
      ⟨[⟨.ldnull, .none⟩, ⟨.call, .none⟩], []⟩ fun b hb => by rw [hbody b hb]; decide
    have hfront : ∀ j ∈ [(⟨.ldnull, .none⟩ : Instruction Handle)], j.HasEffect := by
      simp [Instruction.HasEffect, Instruction.effect]
    have hin : Body.waiting.instructions.contains ⟨1, 1⟩ = true := by decide
    exact (herror _ _).mpr ⟨.malformed rfl hin (by decide) rfl hfront rfl, rfl⟩

end MethodDef

end Instrumentation
