import Instrumentation.Pass
import Instrumentation.Proofs.Flow.Verified
import Instrumentation.Proofs.Weaving.Placement

/-!
# What a pass keeps

A pass keeps a module verified if its log calls are balanced. That is a
condition on the two methods that the searches come up with and on nothing else,
and the searches do not look at it: they ask for leading parameters and not for
their number, and never for what is returned.

The condition is exact. Where log calls are not balanced there is a verified
module, with the same references, that the pass leaves unverified, and one
method of a single instruction is enough for it. A `leave` that names itself is
come back to with an empty stack, so the entry call must have left nothing on
it; a return is fallen into through its exit call, which must have found its
values.

Sections: §1 well-formed bodies · §2 room · §3 methods · §4 modules · §5 bodies
of one instruction · §6 passes.
-/

namespace Instrumentation

open InstructionList

/-! ## §1  Well-formed bodies -/

theorem Body.Admits.mono {b v : Body} {i : Instruction Handle} (hi : b.Admits i)
    (hin : ∀ h, b.instructions.contains h = true → v.instructions.contains h = true)
    (hlocals : b.locals.size ≤ v.locals.size) : v.Admits i :=
  ⟨hi.shape, fun t ht => hin t (hi.targets t ht),
    fun n hn => (hi.slot n hn).trans_le hlocals⟩

/-- Splices keep a body well formed if the slots that their blocks name are
there. -/
theorem Splices.wellFormed {b v : Body} {blocks : List Placed}
    (hs : Splices b blocks v) (hb : b.WellFormed)
    (hlocals : b.locals.size ≤ v.locals.size)
    (hslots : ∀ x ∈ blocks, ∀ i ∈ x.2.map (·.2), ∀ n, i.operand = .local n →
      n.toNat < v.locals.size) :
    v.WellFormed := by
  refine ⟨?_, ?_, ?_⟩
  · intro h i hi
    rcases hs.get?_iff.mp hi with hold | ⟨x, hx, hmem⟩
    · exact (hb.instructions hold).mono (fun _ => hs.contains_old) hlocals
    · have hplain := hs.plain x hx _ hmem
      exact ⟨hplain.shape, by simp [hplain.targets],
        hslots x hx i (List.mem_map_of_mem (f := (·.2)) hmem)⟩
  · intro x hx h hh
    exact hs.contains_old (hb.marks x (hs.handlers ▸ hx) h hh)
  · obtain ⟨h, i, hh, hi, hterm⟩ := hb.last
    exact ⟨h, i, hs.last?.trans hh, hs.get?_old hi, hterm⟩

/-- Balanced splices keep a body verified if the declared stack covers what it
needs then. -/
theorem Splices.verify {b v : Body} {blocks : List Placed} {returnsValue : Bool}
    (hs : Splices b blocks v) (hok : b.verify returnsValue = .ok ())
    (hbalanced : ∀ x ∈ blocks, depthAfter 0 (x.2.map (·.2)) = some 0)
    (hlocals : b.locals.size ≤ v.locals.size)
    (hslots : ∀ x ∈ blocks, ∀ i ∈ x.2.map (·.2), ∀ n, i.operand = .local n →
      n.toNat < v.locals.size)
    (hcovers : v.CoversStack returnsValue) :
    v.verify returnsValue = .ok () := by
  obtain ⟨hwell, before, hbefore, -⟩ := Body.verify_eq_ok_iff.mp hok
  have hcons : v.Consistent returnsValue :=
    hs.consistent hwell.isLinked hbalanced
      (Body.consistent_iff_requiredStack.mpr ⟨before, hbefore⟩)
  obtain ⟨required, hrequired⟩ := Body.consistent_iff_requiredStack.mp hcons
  exact Body.verify_eq_ok_iff.mpr
    ⟨hs.wellFormed hwell hlocals hslots, required, hrequired,
      hcovers required hrequired⟩

/-! ## §2  Room -/

/-- Whether the instruction list of a method has room for log calls: eight
instructions and at most six for each parameter on entry, and five for each
return. -/
def MethodDef.HasRoom (m : MethodDef Body) : Prop :=
  ∀ b, m.body? = some b →
    b.instructions.size + (8 + 6 * m.params.length) + 5 * b.returns.length ≤ capacity

theorem length_packArgument_le (slot : UInt16) (p : ParamDef) (n : Nat) :
    (packArgument slot p n).length ≤ 6 := by
  have hobject : (asObject p.paramType).length ≤ 2 := by
    unfold asObject
    cases p.paramType <;> cases TypeSig.storage _ <;> simp
  simp only [packArgument, List.length_append, List.length_cons, List.length_nil]
  omega

theorem length_entryCode_le {β : Type} (m : MethodDef β) (logger : FieldRef)
    (callable : MethodRef) (slot : UInt16) :
    (entryCode m logger callable slot).length ≤ 8 + 6 * m.params.length := by
  have hpacks :
      (m.params.zipIdx.map fun x => (packArgument slot x.1 x.2).length).sum ≤
        m.params.length * 6 := by
    have hsum := List.sum_le_card_nsmul
      (m.params.zipIdx.map fun x => (packArgument slot x.1 x.2).length) 6
      (List.forall_mem_map.mpr fun x _ => length_packArgument_le slot x.1 x.2)
    simpa using hsum
  simp only [entryCode, List.length_append, List.length_cons,
    List.length_nil, List.length_flatMap]
  omega

theorem Plan.Suits.length_le {p : Plan} {m : MethodDef Body} {b : Body}
    {logger : FieldRef} {callable : MethodRef} {exit : ExitLogging}
    (hp : p.Suits m b logger callable exit) :
    p.length ≤ 8 + 6 * m.params.length + 5 * b.returns.length := by
  have hentry : p.entry.2.instructions.length ≤ 8 + 6 * m.params.length := by
    rw [hp.entry]
    exact length_entryCode_le m logger callable _
  have hcount : p.exits.length ≤ b.returns.length := by
    have hsites : p.exits.map (·.1) ⊆ b.returns := by
      refine List.forall_mem_map.mpr fun step hstep => ?_
      exact List.mem_of_mem_filter (hp.exit_of_mem hstep).1
    simpa using (hp.nodup.subperm hsites).length_le
  have hexits : (p.exits.map (·.2.instructions.length)).sum ≤ p.exits.length * 5 := by
    have hfive : ∀ n ∈ p.exits.map (·.2.instructions.length), n ≤ 5 := by
      refine List.forall_mem_map.mpr fun step hstep => ?_
      obtain ⟨-, emptyArray, message, -, hcall⟩ := hp.exit_of_mem hstep
      rw [hcall]
      exact Nat.le_refl 5
    simpa using List.sum_le_card_nsmul _ 5 hfive
  rw [length, List.map_cons, List.sum_cons]
  omega

/-! ## §3  Methods -/

/-- Whether log calls leave a stack as they find it. Calls that cannot be
planned are not made. -/
def LogCalls.Balanced (calls : LogCalls) : Prop :=
  match calls.exit with
  | .disabled => calls.callable.TakesLog
  | .enabled emptyArray _ => calls.callable.TakesLog ∧ emptyArray.GivesArray
  | .unavailable _ => True

section

variable {p : Plan} {m : MethodDef Body} {b : Body} {calls : LogCalls}
  {logger : FieldRef} {typeName : String}

theorem Plan.Suits.depthAfter_of_balanced
    (hp : p.Suits m b logger calls.callable calls.exit) (hcalls : calls.Balanced) :
    ∀ step ∈ p.entry :: p.exits, depthAfter 0 step.2.instructions = some 0 := by
  obtain ⟨callable, exit⟩ := calls
  cases exit with
  | disabled => exact hp.balanced hcalls (by simp)
  | enabled emptyArray message =>
      refine hp.balanced hcalls.1 ?_
      rintro _ _ ⟨⟩
      exact hcalls.2
  | unavailable cause => exact absurd rfl (hp.available cause)

/-- With room for its plan an eligible method gets all of it. -/
theorem MethodDef.exists_applied (hm : m.isEligible = true)
    (hplan : m.plan logger calls.callable calls.exit = .ok p)
    (hp : p.Suits m b logger calls.callable calls.exit) (hroom : m.HasRoom) :
    ∃ w entry exits, (m.instrument calls typeName logger).1 = m.withBody (some w) ∧
      p.Applied b w entry exits ∧ w.locals = b.locals.push .objects ∧
      w.CoversStack m.returnsValue := by
  have hfits : b.instructions.size + p.length ≤ capacity := by
    have hlength := hp.length_le
    have hsize := hroom b hp.body
    omega
  obtain ⟨m', hok⟩ := hp.apply_ok hfits
  obtain ⟨-, w, entry, exits, rfl, hrest⟩ := hp.applied hok
  refine ⟨w, entry, exits, ?_, hrest⟩
  rw [instrument, if_pos hm, hplan]
  simp only [hok]

/-- The body with balanced log calls is verified if the body without them was. -/
theorem Plan.Suits.verify_applied (hp : p.Suits m b logger calls.callable calls.exit)
    (hcalls : calls.Balanced) {w : Body} {entry : List (Handle × Instruction Handle)}
    {exits : List Placed} (ha : p.Applied b w entry exits)
    (hlocals : w.locals = b.locals.push .objects)
    (hcovers : w.CoversStack m.returnsValue)
    (hok : b.verify m.returnsValue = .ok ()) :
    w.verify m.returnsValue = .ok () := by
  have hsize : w.locals.size = b.locals.size + 1 := by simp [hlocals]
  have hslots : ∀ x ∈ (p.entry.1, entry) :: exits, ∀ i ∈ x.2.map (·.2), ∀ n,
      i.operand = .local n → n.toNat < w.locals.size := by
    refine ha.forall_code
      (P := fun code => ∀ i ∈ code, ∀ n, i.operand = .local n →
        n.toNat < w.locals.size) ?_
    intro step hstep i hi n hn
    obtain rfl := (hp.isLogStep step hstep i hi).slot_eq hn
    rw [UInt16.toNat_ofNat_of_lt' hp.slots, hsize]
    exact Nat.lt_succ_self _
  have hbalanced := ha.forall_code (P := fun code => depthAfter 0 code = some 0)
    (hp.depthAfter_of_balanced hcalls)
  exact ha.splices.verify hok hbalanced (by omega) hslots hcovers

/-- A method that is verified is verified after it has been instrumented. -/
theorem MethodDef.verify_instrument {β γ : Type} {declaring : TypeDef β}
    {declaring' : TypeDef γ} (hcalls : calls.Balanced) (hroom : m.HasRoom)
    (hok : m.verify declaring = .ok ()) :
    (m.instrument calls typeName logger).1.verify declaring' = .ok () := by
  -- the declaring type only shows in messages
  have hsame : m.verify declaring' = .ok () :=
    verify_eq_ok_iff.mpr (verify_eq_ok_iff.mp hok)
  by_cases hm : m.isEligible = true
  · cases hplan : m.plan logger calls.callable calls.exit with
    | error e =>
        rw [instrument, if_pos hm, hplan]
        exact hsame
    | ok p =>
        obtain ⟨b, hp⟩ := plan_eq_ok hplan
        obtain ⟨w, entry, exits, heq, ha, hlocals, hcovers⟩ :=
          exists_applied hm hplan hp hroom
        obtain ⟨hbody, hargs⟩ := verify_eq_ok_iff.mp hok b hp.body
        have hinstance : m.isStatic = false := by
          simp only [isEligible, Bool.and_eq_true, Bool.not_eq_true'] at hm
          exact hm.1.2
        rw [heq]
        refine verify_eq_ok_iff.mpr ?_
        rintro w' ⟨⟩
        refine ⟨hp.verify_applied hcalls ha hlocals hcovers hbody, ?_⟩
        intro h i hi n hn
        rcases ha.splices.get?_iff.mp hi with hold | ⟨x, hx, hmem⟩
        · exact hargs h i hold n hn
        · have hstep := ha.forall_code
            (P := fun code => ∀ i ∈ code,
              IsLogStep m.params.length (UInt16.ofNat b.locals.size) i)
            hp.isLogStep x hx i (List.mem_map_of_mem (f := (·.2)) hmem)
          have hle := hstep.arg_le hn
          show n.toNat < (if m.isStatic then 0 else 1) + m.params.length
          rw [hinstance, if_neg Bool.false_ne_true]
          omega
  · rw [instrument, if_neg hm]
    exact hsame

end

/-! ## §4  Modules -/

section

variable {home : Module Body} {calls : LogCalls} {pattern : LoggerPattern}
  {report : Report}

theorem TypeDef.mem_methods_instrument {t : TypeDef Body} {m' : MethodDef Body}
    (hm' : m' ∈ (t.instrument calls pattern).1.methods) :
    ∃ m ∈ t.methods, m' = m ∨
      ∃ typeName logger, m' = (m.instrument calls typeName logger).1 := by
  unfold instrument at hm'
  split at hm'
  · exact ⟨m', hm', .inl rfl⟩
  · simp only [withMethods, List.map_map] at hm'
    obtain ⟨m, hm, rfl⟩ := List.mem_map.mp hm'
    exact ⟨m, hm, .inr ⟨_, _, rfl⟩⟩

theorem Module.instrument_fst (home : Module Body) (calls : LogCalls)
    (pattern : LoggerPattern) (report : Report) :
    (home.instrument calls pattern report).1 =
      home.withTypes (home.types.map fun t => (t.instrument calls pattern).1) := by
  rw [instrument, List.map_map]
  rfl

/-- A module that is verified is verified after it has been instrumented with
balanced log calls. -/
theorem Module.verify_instrument (hcalls : calls.Balanced)
    (hroom : ∀ t ∈ home.types, ∀ m ∈ t.methods, m.HasRoom)
    (hok : home.verify = .ok ()) :
    (home.instrument calls pattern report).1.verify = .ok () := by
  rw [instrument_fst]
  refine verify_eq_ok_iff.mpr (List.forall_mem_map.mpr ?_)
  intro t ht m' hm'
  obtain ⟨m, hm, hcase⟩ := TypeDef.mem_methods_instrument hm'
  have hmethod := verify_eq_ok_iff.mp hok t ht m hm
  rcases hcase with rfl | ⟨typeName, logger, rfl⟩
  · exact MethodDef.verify_eq_ok_iff.mpr (MethodDef.verify_eq_ok_iff.mp hmethod)
  · exact MethodDef.verify_instrument hcalls (hroom t ht m hm) hmethod

end

/-! ## §5  Bodies of one instruction -/

/-- Control falls through the plain code at the start of a consistent body, to
whatever comes after it. -/
theorem Body.Consistent.exists_depthAfter {b : Body} {returnsValue : Bool}
    (hcons : b.Consistent returnsValue)
    {front back : List (Handle × Instruction Handle)}
    {h : Handle} {i : Instruction Handle}
    (hentries : b.instructions.entries = front ++ (h, i) :: back)
    (hplain : ∀ e ∈ front, e.2.IsPlain) :
    ∃ d, depthAfter 0 (front.map (·.2)) = some d ∧
      b.Reachable returnsValue ⟨h, d⟩ := by
  -- by induction on the code from its end: control is at its last instruction,
  -- and can perform it
  induction front using List.reverseRecOn generalizing h i back with
  | nil =>
      refine ⟨0, rfl, .enters (.first ?_)⟩
      rw [first?_eq_head?, ← entries_map_fst, hentries]
      rfl
  | append_singleton front e ih =>
      obtain ⟨k, j⟩ := e
      rw [List.append_assoc, List.singleton_append] at hentries
      obtain ⟨d, hdepth, hreach⟩ :=
        ih hentries fun e he => hplain e (List.mem_append_left _ he)
      obtain ⟨j', after, hget, e, he, hpops, rfl⟩ := hcons.performs hreach
      have hj : b.instructions.get? k = some j := mem_entries.mp (by simp [hentries])
      obtain rfl : j = j' := Option.some.inj (hj.symm.trans hget)
      have hj : j.IsPlain := hplain (k, j) (by simp)
      obtain ⟨e', he'⟩ := hj.effect
      obtain rfl : e' = e := Except.ok.inj ((he' _ _).symm.trans he)
      have hnext : b.instructions.next? k = some h := by
        rw [next?_eq_some_iff, ← entries_map_fst, hentries]
        exact ⟨front.map (·.1), back.map (·.1), by simp⟩
      refine ⟨_, ?_, hreach.step (.next ⟨hget, e', he, hpops, rfl⟩ hj.falls hnext)⟩
      rw [List.map_append, depthAfter_append, hdepth, Option.bind_some]
      exact depthAfter_cons_eq_some.mpr ⟨e', he' _ _, hpops, rfl⟩

/-- Splices before the only instruction put their blocks there, one after the
other. -/
theorem Splices.entries_of_single {b v : Body} {blocks : List Placed}
    (hs : Splices b blocks v) {h : Handle} {i : Instruction Handle}
    (hentries : b.instructions.entries = [(h, i)]) (hanchor : ∀ x ∈ blocks, x.1 = h) :
    v.instructions.entries = blocks.flatMap (·.2) ++ [(h, i)] := by
  have hin : b.instructions.contains h = true :=
    contains_of_get? (mem_entries.mp (hentries ▸ List.mem_singleton_self (h, i)))
  rw [hs.entries fun x hx => hanchor x hx ▸ hin, hentries, withBlocks_entry,
    blocksBefore_eq_flatMap hanchor]
  rfl

/-- The code of all blocks is the code of all log calls. -/
theorem Plan.Applied.code {p : Plan} {b w : Body}
    {entry : List (Handle × Instruction Handle)} {exits : List Placed}
    (ha : p.Applied b w entry exits) :
    (((p.entry.1, entry) :: exits).flatMap (·.2)).map (·.2) =
      p.entry.2.instructions ++ p.exits.flatMap (·.2.instructions) := by
  have hexits : (exits.map fun x => (x.1, x.2.map (·.2))).flatMap (·.2) =
      (p.exits.map fun step => (step.1, step.2.instructions)).flatMap (·.2) := by
    rw [ha.exitCodes]
  rw [List.flatMap_map, List.flatMap_map] at hexits
  rw [List.flatMap_cons, List.map_append, List.map_flatMap, hexits, ha.entryCode]

def Body.single (i : Instruction Handle) : Body := .ofInstructions (.ofList 1 [i])

def MethodDef.single (i : Instruction Handle) : MethodDef Body :=
  { name := "Run", visibility := .publicAccess, isStatic := false, genericParams := []
    params := [], returnType := .void, body? := some (.single i) }

def TypeDef.single (pattern : LoggerPattern) (i : Instruction Handle) :
    TypeDef Body :=
  { space := "", name := "Service", isValueType := false, genericParams := []
    fields := [⟨"logger", .generic ⟨pattern.space, pattern.name⟩ false [],
      .privateAccess, false, true⟩]
    methods := [.single i] }

section

variable {calls : LogCalls} {pattern : LoggerPattern} {i : Instruction Handle}

theorem TypeDef.methods_instrument_single (calls : LogCalls) (pattern : LoggerPattern)
    (i : Instruction Handle) :
    ∃ typeName logger,
      ((TypeDef.single pattern i).instrument calls pattern).1.methods =
        [((MethodDef.single i).instrument calls typeName logger).1] := by
  have hfield :
      ∃ field, (TypeDef.single pattern i).loggerField? pattern = some field := by
    refine ⟨⟨"logger", .generic ⟨pattern.space, pattern.name⟩ false [],
      .privateAccess, false, true⟩, ?_⟩
    simp [loggerField?, single, FieldDef.carriesLogger,
      LoggerPattern.fits, TypeSig.openDefinition?]
  obtain ⟨field, hfield⟩ := hfield
  refine ⟨(TypeDef.single pattern i).fullName,
    (TypeDef.single pattern i).ownFieldRef field, ?_⟩
  rw [instrument, hfield]
  rfl

theorem MethodDef.hasRoom_single : (MethodDef.single i).HasRoom := by
  rintro b ⟨⟩
  have hreturns : (Body.single i).returns.length ≤ 1 := by
    rw [Body.returns, List.length_map]
    exact List.length_filter_le _ _
  have hsize : (Body.single i).instructions.size = 1 := rfl
  simp only [hsize, single, capacity, UInt32.size, List.length_nil]
  omega

/-- If one instruction with its log calls is verified, control comes to it at
the depth that the log calls leave behind. -/
theorem MethodDef.exists_depthAfter_single {β : Type}
    {declaring : TypeDef β} {typeName : String} {logger : FieldRef}
    (havailable : ∀ cause, calls.exit ≠ .unavailable cause)
    (hok :
      ((MethodDef.single i).instrument calls typeName logger).1.verify declaring =
        .ok ()) :
    ∃ (w : Body) (d : Nat), w.Consistent false ∧ w.instructions.get? ⟨1, 0⟩ = some i ∧
      w.Reachable false ⟨⟨1, 0⟩, d⟩ ∧
      depthAfter 0 (entryCode (MethodDef.single i) logger calls.callable 0 ++
        ((Body.single i).exitCalls logger calls.callable calls.exit).flatMap
          (·.2.instructions)) = some d := by
  obtain ⟨p, hplan⟩ :=
    exists_plan (m := .single i) (b := .single i) logger calls.callable rfl rfl
    (show 0 < UInt16.size by decide) (show 0 < UInt16.size by decide) havailable
  have hp := suits_of_plan (b := .single i) rfl hplan
  obtain ⟨w, entry, exits, heq, ha, -, -⟩ :=
    exists_applied rfl hplan hp hasRoom_single
  rw [heq] at hok
  obtain ⟨hverify, -⟩ := verify_eq_ok_iff.mp hok w rfl
  obtain ⟨-, required, hrequired, -⟩ := Body.verify_eq_ok_iff.mp hverify
  have hcons : w.Consistent false :=
    Body.consistent_iff_requiredStack.mpr ⟨required, hrequired⟩
  have hanchors : ∀ step ∈ p.entry :: p.exits, step.1 = ⟨1, 0⟩ := by
    intro step hstep
    have hmem := mem_handles.mpr (hp.contains step hstep)
    exact List.mem_singleton.mp hmem
  have hblocks : ∀ x ∈ (p.entry.1, entry) :: exits, x.1 = ⟨1, 0⟩ :=
    ha.forall_anchor (P := fun h => h = ⟨1, 0⟩) hanchors
  have hentries := ha.splices.entries_of_single (i := i) rfl hblocks
  obtain ⟨d, hdepth, hreach⟩ := hcons.exists_depthAfter hentries (by
    intro e he
    obtain ⟨x, hx, hmem⟩ := List.mem_flatMap.mp he
    exact ha.splices.plain x hx e hmem)
  refine ⟨w, d, hcons, ha.splices.get?_old rfl, hreach, ?_⟩
  rw [ha.code, hp.entry, hp.exits] at hdepth
  exact hdepth

/-- A `leave` that names itself is come back to with an empty stack, so it takes
a logging method that fits to have it verified with its log calls. -/
theorem MethodDef.takesLog_of_single {β : Type}
    {declaring : TypeDef β} {typeName : String} {logger : FieldRef}
    (havailable : ∀ cause, calls.exit ≠ .unavailable cause)
    (hok :
      ((MethodDef.single ⟨.leave, .target ⟨1, 0⟩⟩).instrument calls typeName
        logger).1.verify declaring = .ok ()) :
    calls.callable.TakesLog := by
  obtain ⟨w, d, hcons, hget, hreach, hdepth⟩ :=
    exists_depthAfter_single havailable hok
  have hnone : (Body.single ⟨.leave, .target ⟨1, 0⟩⟩).exitCalls logger calls.callable
      calls.exit = [] := by
    cases calls.exit <;> rfl
  rw [hnone, List.flatMap_nil, List.append_nil] at hdepth
  have hback : w.Reachable false ⟨⟨1, 0⟩, 0⟩ :=
    hreach.step (.leave ⟨hget, ⟨0, 0⟩, rfl, Nat.zero_le d, rfl⟩
      rfl List.mem_cons_self)
  obtain rfl : d = 0 := hcons.depth hreach hback rfl
  exact (depthAfter_entryCode_iff _ logger calls.callable 0).mp hdepth

/-- A return is fallen into through its exit call, so it takes a factory that
fits to have it verified. -/
theorem MethodDef.givesArray_of_single {β : Type} {declaring : TypeDef β}
    {typeName : String} {logger : FieldRef} {emptyArray : MethodRef}
    {message : String}
    (hexit : calls.exit = .enabled emptyArray message)
    (hcallable : calls.callable.TakesLog)
    (hok :
      ((MethodDef.single ⟨.ret, .none⟩).instrument calls typeName logger).1.verify
        declaring = .ok ()) :
    emptyArray.GivesArray := by
  have havailable : ∀ cause, calls.exit ≠ .unavailable cause := by simp [hexit]
  obtain ⟨w, d, -, -, -, hdepth⟩ := exists_depthAfter_single havailable hok
  have hone : ((Body.single ⟨.ret, .none⟩).exitCalls logger
      calls.callable calls.exit).flatMap (·.2.instructions) =
      (exitCall logger calls.callable emptyArray message).instructions := by
    rw [hexit]
    rfl
  rw [hone, depthAfter_append,
    (depthAfter_entryCode_iff _ logger calls.callable 0).mpr hcallable] at hdepth
  exact givesArray_of_depthAfter hcallable hdepth

end

/-! ## §6  Passes -/

theorem Module.verify_single {home : Module Body} {pattern : LoggerPattern}
    {i : Instruction Handle} (hbody : (Body.single i).verify false = .ok ())
    (harg : ∀ n, i.operand ≠ .arg n) :
    (home.withTypes [TypeDef.single pattern i]).verify = .ok () := by
  refine verify_eq_ok_iff.mpr ?_
  intro t ht m hm
  obtain rfl := List.mem_singleton.mp ht
  obtain rfl := List.mem_singleton.mp hm
  refine MethodDef.verify_eq_ok_iff.mpr ?_
  rintro b ⟨⟩
  refine ⟨hbody, ?_⟩
  intro h j hj n hn
  obtain rfl : j = i := List.mem_singleton.mp (Body.mem_code.mpr ⟨h, hj⟩)
  exact absurd hn (harg n)

/-- Log calls that keep every module verified are balanced. -/
theorem Module.balanced_of_verify_instrument (home : Module Body) (calls : LogCalls)
    (pattern : LoggerPattern)
    (hkeeps : ∀ types, (home.withTypes types).verify = .ok () →
      (∀ t ∈ types, ∀ m ∈ t.methods, m.HasRoom) →
      ((home.withTypes types).instrument calls pattern {}).1.verify = .ok ()) :
    calls.Balanced := by
  have hsingle : ∀ i : Instruction Handle, (Body.single i).verify false = .ok () →
      (∀ n, i.operand ≠ .arg n) →
      ∃ (t : TypeDef Body) (typeName : String) (logger : FieldRef),
        ((MethodDef.single i).instrument calls typeName logger).1.verify t =
          .ok () := by
    intro i hbody harg
    have hroom : ∀ t ∈ [TypeDef.single pattern i], ∀ m ∈ t.methods, m.HasRoom := by
      intro t ht m hm
      obtain rfl := List.mem_singleton.mp ht
      obtain rfl := List.mem_singleton.mp hm
      exact MethodDef.hasRoom_single
    have hok := hkeeps _ (verify_single hbody harg) hroom
    rw [instrument_fst, verify_eq_ok_iff] at hok
    obtain ⟨typeName, logger, hmethods⟩ :=
      TypeDef.methods_instrument_single calls pattern i
    refine ⟨_, typeName, logger, hok _ List.mem_cons_self _ ?_⟩
    rw [hmethods]
    exact List.mem_cons_self
  obtain ⟨t, typeName, logger, hleave⟩ :=
    hsingle ⟨.leave, .target ⟨1, 0⟩⟩ (by decide +kernel) (by simp)
  obtain ⟨t', typeName', logger', hret⟩ :=
    hsingle ⟨.ret, .none⟩ (by decide +kernel) (by simp)
  unfold LogCalls.Balanced
  split
  · rename_i hexit
    exact MethodDef.takesLog_of_single (by simp [hexit]) hleave
  · rename_i emptyArray message hexit
    have hcallable := MethodDef.takesLog_of_single (by simp [hexit]) hleave
    exact ⟨hcallable, MethodDef.givesArray_of_single hexit hcallable hret⟩
  · trivial

def Module.logCalls? (resolve : ModuleReference → Resolution) (s : Settings)
    (home : Module Body) : Option LogCalls :=
  match (Id.run (searchCallable (m := Id) resolve s.loggingCallable
    home.references {})).1 with
  | .error _ => none
  | .ok callable =>
    if s.exitLogging then
      match Id.run (searchEmptyArray (m := Id) resolve home s.scanModules) with
      | .ok emptyArray => some ⟨callable, .enabled emptyArray s.exitMessage⟩
      | .error cause => some ⟨callable, .unavailable cause⟩
    else some ⟨callable, .disabled⟩

/-- The search for the logging method reports on no method. -/
theorem searchCallable_instrumented (resolve : ModuleReference → Resolution)
    (pattern : MethodPattern) :
    ∀ (references : List ModuleReference) (r : Report),
      (Id.run (searchCallable (m := Id) resolve pattern
        references r)).2.instrumented = r.instrumented
  | [], r => rfl
  | reference :: references, r => by
      rw [searchCallable, Id.run_bind]
      cases (Id.run (resolve reference) : Resolution) with
      | error e => exact searchCallable_instrumented resolve pattern references _
      | ok found =>
          simp only
          cases found.callable? pattern with
          | none => exact searchCallable_instrumented resolve pattern references r
          | some callable => rfl

/-- A pass instruments a module with the log calls that it has found, or leaves
it as it is. -/
theorem Module.exists_pass_eq (resolve : ModuleReference → Resolution) (s : Settings)
    (home : Module Body) :
    ∃ r : Report, r.instrumented = [] ∧
      Id.run (Module.pass (m := Id) resolve s home) =
        match home.logCalls? resolve s with
        | none => (home, r)
        | some calls => home.instrument calls s.loggerField r := by
  have hsearch :=
    searchCallable_instrumented resolve s.loggingCallable home.references {}
  unfold pass logCalls?
  rcases hcallable : Id.run (searchCallable (m := Id) resolve s.loggingCallable
    home.references {}) with ⟨e | callable, report⟩
  all_goals
    rw [hcallable] at hsearch
    have hnone : report.instrumented = [] := hsearch
  · exact ⟨report.raise .warning e.message, hnone, by simp [hcallable]⟩
  · by_cases hlogging : s.exitLogging = true
    · cases hempty :
          Id.run (searchEmptyArray (m := Id) resolve home s.scanModules) with
      | error e =>
          exact ⟨Report.raise { report with callable? := some callable }
            .error e.message, hnone, by simp [hcallable, hlogging, hempty]⟩
      | ok emptyArray =>
          exact ⟨{ report with callable? := some callable },
            hnone, by simp [hcallable, hlogging, hempty]⟩
    · exact ⟨{ report with callable? := some callable },
        hnone, by simp [hcallable, hlogging]⟩

theorem Module.pass_fst (resolve : ModuleReference → Resolution) (s : Settings)
    (home : Module Body) :
    (Id.run (Module.pass (m := Id) resolve s home)).1 =
      match home.logCalls? resolve s with
      | none => home
      | some calls => (home.instrument calls s.loggerField {}).1 := by
  obtain ⟨r, -, hpass⟩ := home.exists_pass_eq resolve s
  rw [hpass]
  cases home.logCalls? resolve s with
  | none => rfl
  | some calls => simp only [instrument_fst]

/-- A pass keeps every verified module with given references verified if and
only if the methods that it has found for them fit: the logging method takes
three values and gives none, and the factory of empty arrays, where returns are
logged, gives one for nothing. -/
theorem Module.pass_keeps_verified_iff (resolve : ModuleReference → Resolution)
    (s : Settings) (home : Module Body) :
    (∀ types, (home.withTypes types).verify = .ok () →
      (∀ t ∈ types, ∀ m ∈ t.methods, m.HasRoom) →
      (Id.run (Module.pass (m := Id) resolve s (home.withTypes types))).1.verify =
        .ok ()) ↔
    ∀ calls, home.logCalls? resolve s = some calls → calls.Balanced := by
  constructor
  · intro hkeeps calls hcalls
    refine balanced_of_verify_instrument home calls s.loggerField
      fun types hok hroom => ?_
    have hverify := hkeeps types hok hroom
    rw [pass_fst,
      show (home.withTypes types).logCalls? resolve s = some calls from hcalls]
      at hverify
    exact hverify
  · intro hbalanced types hok hroom
    rw [pass_fst,
      show (home.withTypes types).logCalls? resolve s = home.logCalls? resolve s
        from rfl]
    cases hcalls : home.logCalls? resolve s with
    | none => exact hok
    | some calls => exact verify_instrument (hbalanced calls hcalls) hroom hok

/-- A library whose logging method takes a level besides the logger, the text
and the arguments. -/
def levelledLogging : Module StoredBody :=
  { name := "Logging", coreLibrary? := none, references := []
    types := [{
      space := "", name := "Log", isValueType := false,
      genericParams := [], fields := []
      methods := [{
        name := "Write", visibility := .publicAccess, isStatic := true,
        genericParams := []
        params := [⟨"logger", .object⟩, ⟨"text", .string⟩, ⟨"args", .objects⟩,
          ⟨"level", .primitive .int32⟩]
        returnType := .void, body? := none }] }] }

def levelledSettings : Settings :=
  { loggingCallable :=
      { space := "", declaringType := "Log", method := "Write"
        parameters := ["System.Object", "System.String"] } }

def application : Module Body :=
  { name := "App", coreLibrary? := none,
    references := [⟨"Logging", none⟩], types := [] }

/-- Valid settings do not see to it that the logging method fits. -/
theorem pass_breaks_levelled :
    levelledSettings.fault? = none ∧
      ¬ ∀ types, (application.withTypes types).verify = .ok () →
        (∀ t ∈ types, ∀ m ∈ t.methods, m.HasRoom) →
        (Id.run (Module.pass (m := Id) (ModuleTable.ofList [levelledLogging]).resolve
          levelledSettings (application.withTypes types))).1.verify = .ok () := by
  refine ⟨by decide +kernel, ?_⟩
  intro hkeeps
  have hbalanced :=
    (Module.pass_keeps_verified_iff _ levelledSettings application).mp hkeeps
  have hfound :
      (application.logCalls? (ModuleTable.ofList [levelledLogging]).resolve
        levelledSettings).map (fun calls => (calls.callable.takes, calls.exit)) =
      some (4, .disabled) := by decide +kernel
  obtain ⟨⟨callable, exit⟩, hcalls, heq⟩ := Option.map_eq_some_iff.mp hfound
  obtain ⟨htakes, rfl⟩ := Prod.mk.inj heq
  have hfits : callable.TakesLog := hbalanced _ hcalls
  exact absurd (hfits.takes.symm.trans htakes) (by decide)

end Instrumentation
