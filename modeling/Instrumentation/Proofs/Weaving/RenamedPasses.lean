import Instrumentation.Proofs.Stored.RenamedBodies
import Instrumentation.Proofs.Weaving.Extensions

/-!
# Passes over renamed bodies

A pass goes by what the instructions of a body are and where they stand, and
names only what it has found. So it makes the same of two bodies that differ in
the names of their handles: the same plan up to the names of the anchors, the
same insertions in the same places, and the same failures. An insertion issues
new handles, to which the renaming is extended: those of the one body go to
those of the other by their order.

Sections: §1 insertions into a body · §2 insertions into a method · §3 plans ·
§4 methods and types · §5 modules.
-/

namespace Instrumentation

open InstructionList

/-! ## §1  Insertions into a body -/

theorem ExceptionHandler.ends_map {ρ σ : Type} (f : ρ → σ) (x : ExceptionHandler ρ) :
    (x.map f).ends = x.ends.map f := by
  obtain ⟨kind, tryStart, tryEnd?, handlerStart, handlerEnd?⟩ := x
  cases tryEnd? <;> cases handlerEnd? <;> rfl

namespace Body.Renaming

variable {f : Handle → Handle} {b c : Body} {anchor : Handle} {p : Nat}

/-- A renaming that is to serve when both bodies have grown: a new handle goes
to the one that the other body issues after as many. -/
def grown (f : Handle → Handle) (b c : Body) (h : Handle) : Handle :=
  if b.instructions.contains h then f h else c.instructions.handle h.index

theorem grown_of_contains {h : Handle} (hin : b.instructions.contains h = true) :
    grown f b c h = f h :=
  if_pos hin

theorem map_grown_fresh (hf : Renaming f b c) (count : Nat) :
    (b.instructions.fresh count).map (grown f b c) = c.instructions.fresh count := by
  rw [fresh, fresh, List.map_map, hf.size]
  refine List.map_congr_left fun n hn => ?_
  have hout : b.instructions.contains (b.instructions.handle n) = false := by
    have hle : b.instructions.size ≤ n := (List.mem_range'_1.mp hn).1
    simp [InstructionList.contains, InstructionList.handle, Nat.not_lt.mpr hle]
  exact if_neg (Bool.eq_false_iff.mp hout)

/-- An old entry is renamed as before. -/
theorem map_grown_entry (hb : b.IsLinked) {e : Handle × Instruction Handle}
    (he : e ∈ b.instructions.entries) :
    (grown f b c e.1, e.2.map (grown f b c)) = (f e.1, e.2.map f) := by
  have hi : b.instructions.get? e.1 = some e.2 := mem_entries.mp he
  exact Prod.ext (grown_of_contains (contains_of_get? hi))
    (Instruction.map_congr_left fun t ht => grown_of_contains (hb.targets hi t ht))

theorem map_grown_block (hf : Renaming f b c) {block : List (Instruction Handle)}
    (hblock : ∀ i ∈ block, i.targets = []) :
    ((b.instructions.fresh block.length).zip block).map
        (fun e => (grown f b c e.1, e.2.map (grown f b c))) =
      (c.instructions.fresh block.length).zip block := by
  have hsame : block.map (·.map (grown f b c)) = block := by
    refine (List.map_congr_left fun i hi => ?_).trans (List.map_id _)
    exact Instruction.map_eq_self fun t ht => by simp [hblock i hi] at ht
  calc ((b.instructions.fresh block.length).zip block).map
          (fun e => (grown f b c e.1, e.2.map (grown f b c)))
      = ((b.instructions.fresh block.length).map (grown f b c)).zip
          (block.map (·.map (grown f b c))) := by
        rw [List.zip_map]
        rfl
    _ = (c.instructions.fresh block.length).zip block := by
      rw [hf.map_grown_fresh, hsame]

theorem entries_insertAt_grown (hf : Renaming f b c) (hb : b.IsLinked)
    {block : List (Instruction Handle)} (hblock : ∀ i ∈ block, i.targets = [])
    (hp : b.instructions.position? anchor = some p) :
    (c.instructions.insertAt p block).entries =
      (b.instructions.insertAt p block).entries.map fun e =>
        (grown f b c e.1, e.2.map (grown f b c)) := by
  have hin : b.instructions.contains anchor = true :=
    mem_handles.mp (List.mem_of_getElem? (position?_eq_some_iff.mp hp))
  have hp' : c.instructions.position? (f anchor) = some p :=
    (hf.position? hin).trans hp
  obtain ⟨front, i, back, hsplit, hinserted⟩ := entries_insertAt block hp
  have hsplit' : c.instructions.entries =
      front.map (fun e => (grown f b c e.1, e.2.map (grown f b c))) ++
        (f anchor, i.map (grown f b c)) :: back.map fun e =>
          (grown f b c e.1, e.2.map (grown f b c)) := by
    rw [hf.entries, ← List.map_congr_left fun e he => map_grown_entry hb he, hsplit,
      List.map_append, List.map_cons, grown_of_contains hin]
  rw [InstructionList.insertAt, entries_putAll hsplit' (getElem?_order hp'),
    hinserted, List.map_append, List.map_append, hf.map_grown_block hblock,
    List.map_cons, grown_of_contains hin]

/-- Two bodies stay renamings of each other when the same goes in at the same
place. -/
theorem insertAt (hf : Renaming f b c) (hb : b.IsLinked)
    {block : List (Instruction Handle)} (hblock : ∀ i ∈ block, i.targets = [])
    (hp : b.instructions.position? anchor = some p) (locals : Array TypeSig) :
    Renaming (grown f b c)
      { b with locals, instructions := b.instructions.insertAt p block }
      { c with locals, instructions := c.instructions.insertAt p block } := by
  have hentries := hf.entries_insertAt_grown hb hblock hp
  have hhandles : (b.instructions.insertAt p block).handles.map (grown f b c) =
      (c.instructions.insertAt p block).handles := by
    rw [← entries_map_fst, ← entries_map_fst, hentries, List.map_map, List.map_map]
    rfl
  refine ⟨fun _ _ => injective_of_map_handles hhandles, hentries, ?_, hf.maxStack,
    hf.initLocals, rfl⟩
  refine hf.handlers.trans (List.map_congr_left fun x hx => ?_)
  exact ExceptionHandler.map_congr_left fun h hh =>
    (grown_of_contains (hb.marks x hx h hh)).symm

/-- The stack is widened alike. -/
theorem widenStack (hf : Renaming f b c) (hb : b.IsLinked) (returnsValue : Bool)
    (added : Nat) :
    Renaming f (b.widenStack returnsValue added)
      (c.widenStack returnsValue added) := by
  unfold Body.widenStack
  rw [hf.requiredStack hb, hf.maxStack]
  cases b.requiredStack returnsValue with
  | ok required =>
      exact ⟨hf.injective, hf.entries, hf.handlers, rfl, hf.initLocals, hf.locals⟩
  | error e =>
      exact ⟨hf.injective, hf.entries, hf.handlers, rfl, hf.initLocals, hf.locals⟩

end Body.Renaming

/-! ## §2  Insertions into a method -/

/-- What two bodies have become whose handles are renamed by `f`: the one names
its own instructions only and has those of `b`, and the other is the one under
names that go on from `f`. -/
structure Body.GrowAlike (f : Handle → Handle) (b v w : Body) : Prop where
  linked : v.IsLinked
  old : ∀ {h}, b.instructions.contains h = true → v.instructions.contains h = true
  renamed : ∃ g, Renaming g v w ∧ ∀ {h}, b.instructions.contains h = true → g h = f h

def Body.Takes (b : Body) (steps : List (Handle × Insertion)) : Prop :=
  ∀ step ∈ steps, b.instructions.contains step.1 = true ∧
    ∀ i ∈ step.2.instructions, i.targets = []

section

variable {f : Handle → Handle} {b c : Body}

theorem Body.growAlike_refl (hf : Renaming f b c) (hb : b.IsLinked) :
    GrowAlike f b b c :=
  ⟨hb, id, f, hf, fun _ => rfl⟩

/-- An insertion, made as far as there is room for it. -/
theorem Body.growAlike_insertAt (hf : Renaming f b c) (hb : b.IsLinked)
    {anchor : Handle} {p : Nat} (hp : b.instructions.position? anchor = some p)
    {s : Insertion} (hs : ∀ i ∈ s.instructions, i.targets = []) :
    GrowAlike f b (b.insertAt p (s.fitting b.instructions))
      { c with
        locals := b.locals ++ s.newLocals.toArray
        instructions :=
          c.instructions.insertAt p (s.fitting b.instructions).instructions } := by
  have hextends := b.extends_insertAt (P := fun i => i.targets = [])
    (L := fun _ => True) ⟨hs, fun _ _ => trivial⟩ hp b.maxStack
  refine ⟨hextends.isLinked (fun _ h => h) hb, hextends.contains,
    Renaming.grown f b c, ?_, Renaming.grown_of_contains⟩
  exact hf.insertAt hb (fun i hi => hs i (List.mem_of_mem_take hi)) hp _

theorem Body.GrowAlike.widenStack {v w : Body} (h : GrowAlike f b v w)
    (returnsValue : Bool) (added : Nat) :
    GrowAlike f b (v.widenStack returnsValue added)
      (w.widenStack returnsValue added) := by
  obtain ⟨hv, hold, g, hg, hkeep⟩ := h
  have hwiden := hg.widenStack hv returnsValue added
  obtain ⟨maxStack, heq⟩ := v.widenStack_eq returnsValue added
  rw [heq] at hwiden ⊢
  exact ⟨⟨hv.targets, hv.marks⟩, hold, g, hwiden, hkeep⟩

end

namespace MethodDef

variable {m : MethodDef Body} {b c : Body} {f : Handle → Handle}

theorem withBody_self (hbody : m.body? = some b) : m.withBody (some b) = m := by
  rw [← hbody]
  rfl

/-- An insertion succeeds in both methods or fails in both, and for the same
reason. -/
theorem insertBefore_renamed (hf : Body.Renaming f b c) (hb : b.IsLinked)
    (hbody : m.body? = some b) {anchor : Handle} {s : Insertion}
    (hin : b.instructions.contains anchor = true)
    (hs : ∀ i ∈ s.instructions, i.targets = []) :
    ∃ answer v w, m.insertBefore anchor s = (answer, m.withBody (some v)) ∧
      (m.withBody (some c)).insertBefore (f anchor) s =
        (answer, m.withBody (some w)) ∧
      Body.GrowAlike f b v w := by
  have hself := withBody_self hbody
  have hin' := hf.contains hin
  have hrefl := Body.growAlike_refl hf hb
  by_cases hlocals : Body.maxLocals < b.locals.size + s.newLocals.length
  · refine ⟨.error (.tooManyLocals m.name), b, c, ?_, ?_, hrefl⟩
    · simp only [insertBefore, hbody, hin, Bool.not_true, Bool.false_eq_true,
        if_false, if_pos hlocals, hself]
    · simp only [insertBefore, withBody, hin', hf.locals, Bool.not_true,
        Bool.false_eq_true, if_false, if_pos hlocals]
  cases hpeak : s.peak with
  | error e =>
    refine ⟨.error (.malformedSequence e), b, c, ?_, ?_, hrefl⟩
    · simp only [insertBefore, hbody, hin, Bool.not_true, Bool.false_eq_true,
        if_false, if_neg hlocals, hpeak, hself]
    · simp only [insertBefore, withBody, hin', hf.locals, Bool.not_true,
        Bool.false_eq_true, if_false, if_neg hlocals, hpeak]
  | ok added =>
    obtain ⟨p, hp, hinsert⟩ := insertBefore_of_contains hin s.instructions
    obtain ⟨p', hp', hinsert'⟩ := insertBefore_of_contains hin' s.instructions
    obtain rfl : p' = p :=
      Option.some.inj (hp'.symm.trans ((hf.position? hin).trans hp))
    rw [hf.size] at hinsert'
    have hgrown := Body.growAlike_insertAt hf hb hp hs
    by_cases hroom : s.instructions.length ≤ capacity - b.instructions.size
    · refine ⟨.ok (), _, _, ?_, ?_, hgrown.widenStack m.returnsValue added⟩
      · simp only [insertBefore, hbody, hin, Bool.not_true, Bool.false_eq_true,
          if_false, if_neg hlocals, hpeak, hinsert, if_pos hroom]
        rfl
      · simp only [insertBefore, withBody, hin', hf.locals, Bool.not_true,
          Bool.false_eq_true, if_false, if_neg hlocals, hpeak, hinsert', if_pos hroom]
        rfl
    · refine ⟨.error (.list .full), _, _, ?_, ?_, hgrown⟩
      · simp only [insertBefore, hbody, hin, Bool.not_true, Bool.false_eq_true,
          if_false, if_neg hlocals, hpeak, hinsert, if_neg hroom]
        rfl
      · simp only [insertBefore, withBody, hin', hf.locals, Bool.not_true,
          Bool.false_eq_true, if_false, if_neg hlocals, hpeak, hinsert', if_neg hroom]
        rfl

/-- Insertions one after the other come to the same in both methods. -/
theorem insertAll_renamed {steps : List (Handle × Insertion)}
    (hf : Body.Renaming f b c) (hb : b.IsLinked) (hbody : m.body? = some b)
    (hsteps : b.Takes steps) :
    ∃ answer v w, m.insertAll steps = (answer, m.withBody (some v)) ∧
      (m.withBody (some c)).insertAll (steps.map (Prod.map f id)) =
        (answer, m.withBody (some w)) ∧
      v.IsLinked ∧ v.Alike w := by
  -- by induction on the steps, for the bodies and the renaming that the first
  -- of them leaves
  induction steps generalizing m b c f with
  | nil =>
    refine ⟨.ok (), b, c, ?_, rfl, hb, f, hf⟩
    rw [withBody_self hbody]
    rfl
  | cons step steps ih =>
    obtain ⟨⟨hin, hs⟩, hrest⟩ := List.forall_mem_cons.mp hsteps
    obtain ⟨answer, v, w, hone, hone', hv, hold, g, hg, hkeep⟩ :=
      insertBefore_renamed hf hb hbody hin hs
    have hanchors : steps.map (Prod.map f id) = steps.map (Prod.map g id) :=
      List.map_congr_left fun x hx => Prod.ext (hkeep (hrest x hx).1).symm rfl
    rw [List.map_cons, insertAll, insertAll, Prod.map_fst, Prod.map_snd,
      id_eq, hone, hone']
    cases answer with
    | error e => exact ⟨.error e, v, w, rfl, rfl, hv, g, hg⟩
    | ok _ =>
      rw [hanchors]
      exact ih (m := m.withBody (some v)) hg hv rfl fun x hx =>
        ⟨hold (hrest x hx).1, (hrest x hx).2⟩

end MethodDef

/-! ## §3  Plans -/

def Plan.rename (f : Handle → Handle) (p : Plan) : Plan :=
  ⟨(f p.entry.1, p.entry.2), p.exits.map (Prod.map f id)⟩

namespace Body.Renaming

variable {f : Handle → Handle} {b c : Body}

theorem first? (hf : Renaming f b c) :
    c.instructions.first? = b.instructions.first?.map f := by
  rw [first?_eq_head?, hf.handles, List.head?_map, first?_eq_head?]

theorem contains_of_mem_returns {h : Handle} (hh : h ∈ b.returns) :
    b.instructions.contains h = true := by
  obtain ⟨⟨h, i⟩, he, rfl⟩ := List.mem_map.mp hh
  exact contains_of_get? (mem_entries.mp (List.mem_of_mem_filter he))

/-- A return is an exit in the one body exactly if it is one in the other. -/
theorem exits (hf : Renaming f b c) (hb : b.IsLinked) : c.exits = b.exits.map f := by
  have hends : c.afterRegions = b.afterRegions.map f := by
    rw [afterRegions, hf.handlers, List.flatMap_map, afterRegions, List.map_flatMap]
    exact List.flatMap_congr fun x _ => x.ends_map f
  have hmem : ∀ h ∈ b.returns, f h ∈ b.afterRegions.map f ↔ h ∈ b.afterRegions := by
    intro h hh
    constructor
    · intro hfh
      obtain ⟨k, hk, hsame⟩ := List.mem_map.mp hfh
      obtain ⟨x, hx, hkx⟩ := List.mem_flatMap.mp hk
      have hkin := hb.marks x hx k (ExceptionHandler.mem_marks_of_ends hkx)
      rwa [← hf.injective k h hkin (contains_of_mem_returns hh) hsame]
    · exact List.mem_map_of_mem
  rw [Body.exits, hf.returns, hends, List.filter_map, Body.exits]
  refine congrArg _ (List.filter_congr fun h hh => ?_)
  simp only [Function.comp_apply, hmem h hh]

end Body.Renaming

namespace MethodDef

variable {m : MethodDef Body} {b c : Body} {f : Handle → Handle} {logger : FieldRef}
  {callable : MethodRef} {exit : ExitLogging}

theorem entryCall_renamed (hf : Body.Renaming f b c) (hbody : m.body? = some b) :
    (m.withBody (some c)).entryCall logger callable =
      m.entryCall logger callable := by
  simp only [entryCall, hbody, withBody, hf.locals]
  rfl

/-- Planning comes to the same, up to the names of the anchors. -/
theorem plan_renamed (hf : Body.Renaming f b c) (hb : b.IsLinked)
    (hbody : m.body? = some b) :
    (m.withBody (some c)).plan logger callable exit =
      (m.plan logger callable exit).map (Plan.rename f) := by
  have hentry :
      (m.withBody (some c)).entryCall logger callable = m.entryCall logger callable :=
    entryCall_renamed hf hbody
  have hbody' : (m.withBody (some c)).body? = some c := rfl
  have hname : (m.withBody (some c)).name = m.name := rfl
  simp only [plan, hbody, hbody', hentry, hname, hf.first?, hf.exits hb]
  cases b.instructions.first? with
  | none => rfl
  | some first =>
    cases m.entryCall logger callable with
    | error e => rfl
    | ok entry =>
      cases exit with
      | disabled => rfl
      | unavailable cause => rfl
      | enabled emptyArray message =>
        simp [Except.map, Plan.rename, Prod.map, Function.comp_def]

theorem planFault?_renamed {steps : List (Handle × Insertion)}
    (hf : Body.Renaming f b c) (hsteps : b.Takes steps) :
    (m.withBody (some c)).planFault? c (steps.map (Prod.map f id)) =
      m.planFault? b steps := by
  have hnone : steps.find? (fun step => !b.instructions.contains step.1) = none := by
    simpa using fun anchor s h => (hsteps (anchor, s) h).1
  have hnone' : (steps.map (Prod.map f id)).find?
      (fun step => !c.instructions.contains step.1) = none := by
    simpa using fun anchor s h => hf.contains (hsteps (anchor, s) h).1
  simp only [planFault?, hnone, hnone', hf.locals, List.flatMap_map]
  rfl

/-- Applying a plan comes to the same. -/
theorem apply_renamed {p : Plan} (hf : Body.Renaming f b c) (hb : b.IsLinked)
    (hbody : m.body? = some b) (hp : b.Takes (p.entry :: p.exits)) :
    ∃ answer v w, m.apply p = (answer, m.withBody (some v)) ∧
      (m.withBody (some c)).apply (p.rename f) = (answer, m.withBody (some w)) ∧
      v.IsLinked ∧ v.Alike w := by
  have hbody' : (m.withBody (some c)).body? = some c := rfl
  have hrename : (p.rename f).entry :: (p.rename f).exits =
      (p.entry :: p.exits).map (Prod.map f id) := rfl
  have hlength : (p.rename f).exits.length = p.exits.length := List.length_map ..
  have hfault := planFault?_renamed (m := m) hf hp
  simp only [apply, hbody, hbody', hrename, hfault, hlength]
  cases m.planFault? b (p.entry :: p.exits) with
  | some e => exact ⟨.error e, b, c, by rw [withBody_self hbody], rfl, hb, f, hf⟩
  | none =>
    obtain ⟨answer, v, w, hall, hall', hv, halike⟩ := insertAll_renamed hf hb hbody hp
    rw [hall, hall']
    cases answer with
    | error e => exact ⟨.error e, v, w, rfl, rfl, hv, halike⟩
    | ok _ => exact ⟨.ok p.exits.length, v, w, rfl, rfl, hv, halike⟩

end MethodDef

/-! ## §4  Methods and types -/

/-- Two bodies that differ in the names of their handles only, none of which
leads anywhere else. -/
def Body.SameButNames (b c : Body) : Prop := b.IsLinked ∧ b.Alike c

namespace MethodDef

variable {m m' : MethodDef Body} {calls : LogCalls} {typeName : String}
  {logger : FieldRef}

/-- Methods that agree have no bodies, or the one is the other with another body. -/
theorem Agree.eq_withBody {β γ : Type} {R : β → γ → Prop} {m : MethodDef β}
    {m' : MethodDef γ} (h : m.Agree R m') :
    m.body? = none ∧ m'.body? = none ∨
      ∃ b c, m.body? = some b ∧ m' = m.withBody (some c) ∧ R b c := by
  have hsame : m' = m.withBody m'.body? := congrArg (·.withBody m'.body?) h.rest
  have hbody := h.body
  generalize m.body? = b?, m'.body? = c? at hbody hsame ⊢
  cases hbody with
  | none => exact .inl ⟨rfl, rfl⟩
  | some hbc => exact .inr ⟨_, _, rfl, hsame, hbc⟩

/-- What a plan for a method inserts, its body takes. -/
theorem takes_of_plan {p : Plan} {b : Body} (hbody : m.body? = some b)
    {callable : MethodRef} {exit : ExitLogging}
    (hplan : m.plan logger callable exit = .ok p) : b.Takes (p.entry :: p.exits) := by
  have hp := suits_of_plan hbody hplan
  exact fun step hstep =>
    ⟨hp.contains step hstep, fun i hi => (hp.plain step hstep i hi).targets⟩

/-- What becomes of a method is the same, and so is what is left of it but for
the names. -/
theorem Agree.instrument (h : m.Agree Body.SameButNames m') :
    (m'.instrument calls typeName logger).2 = (m.instrument calls typeName logger).2 ∧
      (m.instrument calls typeName logger).1.Agree Body.SameButNames
        (m'.instrument calls typeName logger).1 := by
  rcases h.eq_withBody with ⟨hnone, hnone'⟩ | ⟨b, c, hbody, rfl, hb, f, hf⟩
  · have helig : m.isEligible = false := by simp [isEligible, hasBody, hnone]
    have helig' : m'.isEligible = false := by simp [isEligible, hasBody, hnone']
    simpa [MethodDef.instrument, helig, helig'] using h
  · have helig : (m.withBody (some c)).isEligible = m.isEligible := by
      simp [isEligible, hasBody, isConstructor, withBody, hbody]
    unfold MethodDef.instrument
    rw [helig, plan_renamed hf hb hbody]
    cases m.isEligible with
    | false => exact ⟨rfl, h⟩
    | true =>
      simp only [if_true]
      cases hplan : m.plan logger calls.callable calls.exit with
      | error e => exact ⟨rfl, h⟩
      | ok p =>
        obtain ⟨answer, v, w, happly, happly', hv, halike⟩ :=
          apply_renamed hf hb hbody (takes_of_plan hbody hplan)
        have hagree : (m.withBody (some v)).Agree Body.SameButNames
            (m.withBody (some w)) :=
          ⟨rfl, .some ⟨hv, halike⟩⟩
        simp only [Except.map, happly, happly']
        cases answer with
        | ok exitSites => exact ⟨rfl, hagree⟩
        | error e => exact ⟨rfl, hagree⟩

end MethodDef

section

variable {α β γ : Type} {R : α → β → Prop} {xs : List α} {ys : List β}

theorem map_eq_map_of_forall₂ {f : α → γ} {g : β → γ} (hall : List.Forall₂ R xs ys)
    (hsame : ∀ x y, R x y → g y = f x) : ys.map g = xs.map f :=
  map_eq_of_forall₂ (R := fun z y => g y = z)
    (List.forall₂_map_left_iff.mpr (hall.imp fun x y h => hsame x y h)) fun _ _ h => h

end

theorem TypeDef.Agree.instrument {t t' : TypeDef Body} {calls : LogCalls}
    {pattern : LoggerPattern} (h : t.Agree Body.SameButNames t') :
    (t'.instrument calls pattern).2 = (t.instrument calls pattern).2 ∧
      (t.instrument calls pattern).1.Agree Body.SameButNames
        (t'.instrument calls pattern).1 := by
  have hempty : t'.methods.isEmpty = t.methods.isEmpty := by
    have hmethods := h.methods
    generalize t.methods = ms, t'.methods = ms' at hmethods
    cases hmethods with
    | nil => rfl
    | cons _ _ => rfl
  have hfields : t'.fields = t.fields := congrArg (·.fields) h.rest
  have hfield : t'.loggerField? pattern = t.loggerField? pattern := by
    simp only [loggerField?, hempty, hfields]
  have hname : t'.fullName = t.fullName := congrArg (·.fullName) h.rest
  have hown : t'.ownFieldRef = t.ownFieldRef := congrArg (·.ownFieldRef) h.rest
  unfold TypeDef.instrument
  rw [hfield]
  cases t.loggerField? pattern with
  | none => exact ⟨rfl, h⟩
  | some field =>
    simp only [List.map_map, hname, hown]
    refine ⟨map_eq_map_of_forall₂ h.methods fun _ _ hm => hm.instrument.1, h.rest, ?_⟩
    simp only [withMethods]
    rw [List.forall₂_map_left_iff, List.forall₂_map_right_iff]
    exact h.methods.imp fun _ _ hm => hm.instrument.2

/-! ## §5  Modules -/

namespace Module

variable {home again : Module Body}

theorem Agree.instrument {calls : LogCalls} {pattern : LoggerPattern}
    {report : Report} (h : home.Agree Body.SameButNames again) :
    (again.instrument calls pattern report).2 =
      (home.instrument calls pattern report).2 ∧
      (home.instrument calls pattern report).1.Agree Body.SameButNames
        (again.instrument calls pattern report).1 := by
  have houtcomes : again.types.map (fun t => (t.instrument calls pattern).2) =
      home.types.map fun t => (t.instrument calls pattern).2 :=
    map_eq_map_of_forall₂ h.types fun _ _ ht => ht.instrument.1
  refine ⟨?_, h.rest, ?_⟩
  · simp only [Module.instrument, List.flatMap_def, List.map_map,
      Function.comp_def, houtcomes]
  · simp only [Module.instrument, withTypes, List.map_map]
    rw [List.forall₂_map_left_iff, List.forall₂_map_right_iff]
    exact h.types.imp fun _ _ ht => ht.instrument.2

/-- A pass makes the same of two modules that differ in the names of handles,
and asks the same of its resolver. -/
theorem Agree.pass {σ : Type} (h : home.Agree Body.SameButNames again)
    (resolve : ModuleReference → StateM σ Resolution) (s : Settings) (store : σ) :
    ((again.pass resolve s).run store).1.2 = ((home.pass resolve s).run store).1.2 ∧
      ((again.pass resolve s).run store).2 = ((home.pass resolve s).run store).2 ∧
      ((home.pass resolve s).run store).1.1.Agree Body.SameButNames
        ((again.pass resolve s).run store).1.1 := by
  have hreferences : again.references = home.references :=
    congrArg (·.references) h.rest
  have hempty : searchEmptyArray resolve again s.scanModules =
      searchEmptyArray resolve home s.scanModules := by
    have hcore : again.coreLibrary? = home.coreLibrary? :=
      congrArg (·.coreLibrary?) h.rest
    simp only [searchEmptyArray, arrayCandidates, hcore]
  unfold Module.pass
  rw [hreferences, hempty, StateT.run_bind, StateT.run_bind]
  rcases (searchCallable resolve s.loggingCallable home.references {}).run store
    with ⟨⟨answer, r⟩, store'⟩
  cases answer with
  | error e => exact ⟨rfl, rfl, h⟩
  | ok callable =>
    simp only [bind]
    cases s.exitLogging with
    | false => exact ⟨h.instrument.1, rfl, h.instrument.2⟩
    | true =>
      simp only [if_true, StateT.run, StateT.bind, bind]
      rcases searchEmptyArray resolve home s.scanModules store'
        with ⟨emptyArray, store''⟩
      cases emptyArray with
      | ok emptyArray => exact ⟨h.instrument.1, rfl, h.instrument.2⟩
      | error e => exact ⟨h.instrument.1, rfl, h.instrument.2⟩

end Module

end Instrumentation
