import Instrumentation.Proofs.Weaving.Preservation

/-!
# What a pass touches and reports

A pass asks of each type whether it has a logger field, and of each of its
methods whether it is one to instrument. Those that are, in the order in which
the module declares them, are its candidates. Each of them ends up in exactly
one of the two lists of the report, and the pass writes to no other method and
to nothing but bodies. What decides is known before anything is written: whether
the candidate has a first instruction, whether its entry call can be built, and
whether exit calls have what they need.

Sections: §1 candidates · §2 findings · §3 one candidate · §4 reports · §5
modules · §6 passes.
-/

namespace Instrumentation

open InstructionList

/-! ## §1  Candidates -/

/-- A method that a pass is to instrument, with its type and the name of the
type's logger field. -/
structure Candidate where
  type : TypeDef Body
  logger : FieldRef
  method : MethodDef Body

def TypeDef.candidates (t : TypeDef Body) (pattern : LoggerPattern) :
    List Candidate :=
  match t.loggerField? pattern with
  | none => []
  | some field =>
      (t.methods.filter (·.isEligible)).map fun m => ⟨t, t.ownFieldRef field, m⟩

def Module.candidates (home : Module Body) (pattern : LoggerPattern) :
    List Candidate :=
  home.types.flatMap (·.candidates pattern)

namespace Candidate

def label (c : Candidate) : String × String := (c.type.fullName, c.method.name)

def plan (c : Candidate) (calls : LogCalls) : Except PlanError Plan :=
  c.method.plan c.logger calls.callable calls.exit

/-- Whether a pass skips the candidate: there is no instruction to put a call
before, the entry call is refused, or exit calls lack the factory of empty
arrays. -/
def isSkipped (c : Candidate) (callable : MethodRef)
    (lacksEmptyArray : Bool) : Bool :=
  c.method.body?.all (·.instructions.isEmpty) ||
    !(c.method.entryCall c.logger callable).isOk || lacksEmptyArray

def HasRoom (c : Candidate) (calls : LogCalls) : Prop :=
  ∀ b p, c.method.body? = some b → c.plan calls = .ok p →
    b.instructions.size + p.length ≤ capacity

end Candidate

def Module.withBodies (home : Module Body)
    (new? : TypeDef Body → MethodDef Body → Option Body) : Module Body :=
  home.withTypes (home.types.map fun t =>
    t.withMethods (t.methods.map fun m => m.withBody ((new? t m).or m.body?)))

/-! ## §2  Findings -/

section

variable {σ : Type} (resolve : ModuleReference → StateM σ Resolution) (s : Settings)
  (home : Module Body) (store : σ)

def Module.foundCallable : Option MethodRef × σ :=
  let ((callable, _), store) :=
    (searchCallable resolve s.loggingCallable home.references {}).run store
  (callable.toOption, store)

def Module.foundEmptyArray : Except EmptyArrayError MethodRef :=
  ((searchEmptyArray resolve home s.scanModules).run
    (home.foundCallable resolve s store).2).1

def Module.lacksEmptyArray : Bool :=
  s.exitLogging && !(home.foundEmptyArray resolve s store).isOk

def Settings.logCalls (callable : MethodRef)
    (emptyArray : Except EmptyArrayError MethodRef) : LogCalls :=
  ⟨callable,
    if s.exitLogging then
      match emptyArray with
      | .ok emptyArray => .enabled emptyArray s.exitMessage
      | .error e => .unavailable e
    else .disabled⟩

end

/-! ## §3  One candidate -/

theorem MethodDef.hasBody_of_isEligible {β : Type} {m : MethodDef β}
    (hm : m.isEligible = true) : m.hasBody = true :=
  (Bool.and_eq_true_iff.mp hm).2

theorem InstructionList.first?_eq_none_iff {l : InstructionList} :
    l.first? = none ↔ l.isEmpty = true := by
  rw [first?_eq_head?, List.head?_eq_none_iff,
    ← List.length_eq_zero_iff, length_handles]
  simp [isEmpty]

def ExitLogging.isUnavailable : ExitLogging → Bool
  | .unavailable _ => true
  | .disabled | .enabled _ _ => false

namespace Candidate

variable {c : Candidate} {calls : LogCalls}

theorem exists_plan_iff (hbody : c.method.hasBody = true) :
    (∃ p, c.plan calls = .ok p) ↔
      c.isSkipped calls.callable calls.exit.isUnavailable = false := by
  obtain ⟨b, hb⟩ := Option.isSome_iff_exists.mp hbody
  cases hfirst : b.instructions.first? with
  | none =>
      simp [plan, MethodDef.plan, isSkipped, hb, hfirst, first?_eq_none_iff.mp hfirst]
  | some first =>
    have hempty : b.instructions.isEmpty = false := by
      rw [← Bool.not_eq_true, ← first?_eq_none_iff, hfirst]
      simp
    cases hentry : c.method.entryCall c.logger calls.callable with
    | error e =>
        simp [plan, MethodDef.plan, isSkipped, hb, hfirst, hentry,
          Except.isOk, Except.toBool]
    | ok entry =>
      cases hexit : calls.exit <;>
        simp [plan, MethodDef.plan, isSkipped, hb, hfirst, hentry, hexit, hempty,
          ExitLogging.isUnavailable, Except.isOk, Except.toBool]

theorem hasRoom (hroom : c.method.HasRoom) : c.HasRoom calls := by
  intro b p hb hplan
  have hsuits := MethodDef.suits_of_plan hb hplan
  have hlength := hsuits.length_le
  have hsize := hroom b hb
  omega

def outcome (c : Candidate) (calls : LogCalls) : MethodDef Body × Outcome :=
  c.method.instrument calls c.type.fullName c.logger

/-- A skipped candidate stays as it was. -/
theorem outcome_of_isSkipped (hc : c.method.isEligible = true)
    (hskip : c.isSkipped calls.callable calls.exit.isUnavailable = true) :
    ∃ reason, c.outcome calls =
      (c.method, .skipped ⟨c.type.fullName, c.method.name, reason⟩) := by
  have hnone : ¬ ∃ p, c.plan calls = .ok p := by
    rw [exists_plan_iff (MethodDef.hasBody_of_isEligible hc), hskip]
    exact Bool.noConfusion
  cases hplan : c.method.plan c.logger calls.callable calls.exit with
  | ok p => exact absurd ⟨p, hplan⟩ hnone
  | error e => exact ⟨e.message, by simp [outcome, MethodDef.instrument, hc, hplan]⟩

/-- A candidate that is not skipped gets all its log calls. -/
theorem outcome_of_not_isSkipped (hc : c.method.isEligible = true)
    (hroom : c.HasRoom calls)
    (hskip : c.isSkipped calls.callable calls.exit.isUnavailable = false) :
    ∃ p w, c.plan calls = .ok p ∧
      c.method.apply p = (.ok p.exits.length, c.method.withBody (some w)) ∧
      c.outcome calls = (c.method.withBody (some w),
        .instrumented ⟨c.type.fullName, c.method.name, true, p.exits.length⟩) := by
  obtain ⟨p, hplan⟩ :=
    (exists_plan_iff (MethodDef.hasBody_of_isEligible hc)).mpr hskip
  obtain ⟨b, hsuits⟩ := MethodDef.plan_eq_ok hplan
  obtain ⟨m', hok⟩ := hsuits.apply_ok (hroom b p hsuits.body hplan)
  obtain ⟨-, w, -, -, rfl, -⟩ := hsuits.applied hok
  refine ⟨p, w, hplan, hok, ?_⟩
  rw [plan] at hplan
  simp [outcome, MethodDef.instrument, hc, hplan, hok]

/-- The new body of a candidate, if it is not skipped. -/
def newBody? (c : Candidate) (calls : LogCalls) : Option Body :=
  if c.method.isEligible && !c.isSkipped calls.callable calls.exit.isUnavailable then
    (c.outcome calls).1.body?
  else none

theorem newBody?_of_outcome {w : Body} {o : Outcome}
    (helig : c.method.isEligible = true)
    (hskip : c.isSkipped calls.callable calls.exit.isUnavailable = false)
    (houtcome : c.outcome calls = (c.method.withBody (some w), o)) :
    c.newBody? calls = some w := by
  simp [newBody?, helig, hskip, houtcome, MethodDef.withBody]

section

variable (hroom : c.method.isEligible = true → c.HasRoom calls)

include hroom

theorem newBody?_iff :
    ((c.newBody? calls).isSome = true ↔
      c.method.isEligible = true ∧
        c.isSkipped calls.callable calls.exit.isUnavailable = false) ∧
    ∀ w, c.newBody? calls = some w →
      ∃ p, c.plan calls = .ok p ∧
        c.method.apply p = (.ok p.exits.length, c.method.withBody (some w)) := by
  by_cases hcond : c.method.isEligible = true ∧
      c.isSkipped calls.callable calls.exit.isUnavailable = false
  · obtain ⟨helig, hskip⟩ := hcond
    obtain ⟨p, w, hplan, happly, houtcome⟩ :=
      outcome_of_not_isSkipped helig (hroom helig) hskip
    have hnew : c.newBody? calls = some w := newBody?_of_outcome helig hskip houtcome
    refine ⟨by simp [hnew, helig, hskip], ?_⟩
    rintro w' hw'
    obtain rfl := Option.some.inj (hnew.symm.trans hw')
    exact ⟨p, hplan, happly⟩
  · have hnew : c.newBody? calls = none := by
      simp only [newBody?, Bool.and_eq_true, Bool.not_eq_true', if_neg hcond]
    simp [hnew, hcond]

/-- A pass writes the new body of a candidate that has one and nothing else. -/
theorem outcome_fst :
    (c.outcome calls).1 =
      c.method.withBody ((c.newBody? calls).or c.method.body?) := by
  by_cases helig : c.method.isEligible = true
  · cases hskip : c.isSkipped calls.callable calls.exit.isUnavailable with
    | true =>
      obtain ⟨reason, houtcome⟩ := outcome_of_isSkipped helig hskip
      have hnew : c.newBody? calls = none := by simp [newBody?, hskip]
      rw [houtcome, hnew]
      rfl
    | false =>
      obtain ⟨p, w, -, -, houtcome⟩ :=
        outcome_of_not_isSkipped helig (hroom helig) hskip
      rw [houtcome, newBody?_of_outcome helig hskip houtcome]
      rfl
  · have hnew : c.newBody? calls = none := by simp [newBody?, helig]
    rw [outcome, MethodDef.instrument, if_neg helig, hnew]
    rfl

end

end Candidate

/-! ## §4  Reports -/

namespace Outcome

def instrumented? : Outcome → Option InstrumentedMethod
  | .instrumented m => some m
  | _ => none

def skipped? : Outcome → Option SkippedMethod
  | .skipped m => some m
  | _ => none

end Outcome

theorem Report.foldl_record (r : Report) (outcomes : List Outcome) :
    outcomes.foldl Report.record r =
      { r with
        instrumented := r.instrumented ++ outcomes.filterMap Outcome.instrumented?
        skipped := r.skipped ++ outcomes.filterMap Outcome.skipped? } := by
  induction outcomes generalizing r with
  | nil => simp
  | cons o outcomes ih =>
    rw [List.foldl_cons, ih]
    cases o <;> simp [record, Report.instrument, Report.skip, Outcome.instrumented?,
      Outcome.skipped?, List.filterMap_cons]

theorem Report.hasErrors_raise (r : Report) (level : Severity) (message : String) :
    (r.raise level message).hasErrors = (r.hasErrors || level == .error) := by
  simp [hasErrors, raise]

/-- The search for the logging method reports on no method and raises no error. -/
theorem searchCallable_report {σ : Type}
    (resolve : ModuleReference → StateM σ Resolution) (pattern : MethodPattern)
    (references : List ModuleReference) (r : Report) (store : σ) :
    let found := ((searchCallable resolve pattern references r).run store).1.2
    found.instrumented = r.instrumented ∧ found.skipped = r.skipped ∧
      found.hasErrors = r.hasErrors := by
  induction references generalizing r store with
  | nil => exact ⟨rfl, rfl, rfl⟩
  | cons reference references ih =>
    rw [searchCallable, StateT.run_bind]
    obtain ⟨answer, store⟩ := (resolve reference).run store
    cases answer with
    | error e =>
      obtain ⟨hinstrumented, hskipped, herrors⟩ :=
        ih (r.raise .warning ("Skipping reference " ++ reference.name ++
          ": " ++ e.message)) store
      exact ⟨hinstrumented, hskipped,
        herrors.trans ((r.hasErrors_raise _ _).trans (Bool.or_false _))⟩
    | ok found =>
      simp only [bind]
      cases found.callable? pattern with
      | none => exact ih r store
      | some callable =>
          exact ⟨rfl, rfl, (r.hasErrors_raise _ _).trans (Bool.or_false _)⟩

/-! ## §5  Modules -/

section

variable {t : TypeDef Body} {home : Module Body} {calls : LogCalls}
  {pattern : LoggerPattern}

theorem TypeDef.mem_candidates {c : Candidate} :
    c ∈ t.candidates pattern ↔
      ∃ field, t.loggerField? pattern = some field ∧
        ∃ m ∈ t.methods, m.isEligible = true ∧ c = ⟨t, t.ownFieldRef field, m⟩ := by
  unfold candidates
  cases t.loggerField? pattern with
  | none => simp
  | some field =>
    simp only [List.mem_map, List.mem_filter, Option.some.injEq, exists_eq_left']
    constructor
    · rintro ⟨m, ⟨hmem, hm⟩, rfl⟩
      exact ⟨m, hmem, hm, rfl⟩
    · rintro ⟨m, hmem, hm, rfl⟩
      exact ⟨m, ⟨hmem, hm⟩, rfl⟩

theorem Module.isEligible_of_mem_candidates {c : Candidate}
    (hc : c ∈ home.candidates pattern) : c.method.isEligible = true := by
  obtain ⟨t, -, hc⟩ := List.mem_flatMap.mp hc
  obtain ⟨-, -, m, -, hm, rfl⟩ := TypeDef.mem_candidates.mp hc
  exact hm

/-- What a pass reports of a type is what it reports of the type's candidates. -/
theorem TypeDef.filterMap_instrument {α : Type} {read : Outcome → Option α}
    (hread : read .passedOver = none) :
    (t.instrument calls pattern).2.filterMap read =
      (t.candidates pattern).filterMap fun c => read (c.outcome calls).2 := by
  rw [instrument, candidates]
  cases t.loggerField? pattern with
  | none => rfl
  | some field =>
    simp only [List.filterMap_map, List.filterMap_filter]
    refine List.filterMap_congr fun m _ => ?_
    by_cases hm : m.isEligible = true
    · simp [hm, Candidate.outcome]
    · simp [hm, MethodDef.instrument, hread]

theorem Module.filterMap_instrument {α : Type} {read : Outcome → Option α}
    (hread : read .passedOver = none) :
    ((home.types.map (·.instrument calls pattern)).flatMap (·.2)).filterMap read =
      (home.candidates pattern).filterMap fun c => read (c.outcome calls).2 := by
  simp only [candidates, List.flatMap_map, List.filterMap_flatMap,
    TypeDef.filterMap_instrument hread]

theorem Module.withBodies_eq_self {new? : TypeDef Body → MethodDef Body → Option Body}
    (hnone : ∀ t ∈ home.types, ∀ m ∈ t.methods, new? t m = none) :
    home.withBodies new? = home := by
  refine congrArg home.withTypes
    ((List.map_congr_left fun t ht => ?_).trans (List.map_id _))
  refine congrArg t.withMethods
    ((List.map_congr_left fun m hm => ?_).trans (List.map_id _))
  rw [hnone t ht m hm, Option.none_or]
  rfl

def TypeDef.newBody? (t : TypeDef Body) (calls : LogCalls) (pattern : LoggerPattern)
    (m : MethodDef Body) : Option Body :=
  (t.loggerField? pattern).bind fun field =>
    Candidate.newBody? ⟨t, t.ownFieldRef field, m⟩ calls

section

variable (hroom : ∀ c ∈ t.candidates pattern, c.HasRoom calls)

include hroom

/-- Which methods of a type get a new body, and that it is the one with all log
calls of the method. -/
theorem TypeDef.newBody?_iff {m : MethodDef Body} (hm : m ∈ t.methods) :
    ((t.newBody? calls pattern m).isSome = true ↔
      ∃ c ∈ t.candidates pattern, c.method = m ∧
        c.isSkipped calls.callable calls.exit.isUnavailable = false) ∧
    ∀ w, t.newBody? calls pattern m = some w →
      ∃ logger p, m.plan logger calls.callable calls.exit = .ok p ∧
        m.apply p = (.ok p.exits.length, m.withBody (some w)) := by
  rw [newBody?]
  cases hfield : t.loggerField? pattern with
  | none => simp [candidates, hfield]
  | some field =>
    let c : Candidate := ⟨t, t.ownFieldRef field, m⟩
    have hmem : m.isEligible = true → c ∈ t.candidates pattern :=
      fun helig => mem_candidates.mpr ⟨field, hfield, m, hm, helig, rfl⟩
    obtain ⟨hsome, hplanned⟩ := c.newBody?_iff fun helig => hroom c (hmem helig)
    refine ⟨?_, fun w hw => ⟨c.logger, hplanned w hw⟩⟩
    rw [Option.bind_some, hsome]
    constructor
    · rintro ⟨helig, hskip⟩
      exact ⟨c, hmem helig, rfl, hskip⟩
    · rintro ⟨c', hc', rfl, hskip⟩
      obtain ⟨field', hfield', m', -, helig, rfl⟩ := mem_candidates.mp hc'
      obtain rfl : field = field' := Option.some.inj (hfield.symm.trans hfield')
      exact ⟨helig, hskip⟩

theorem TypeDef.instrument_fst :
    (t.instrument calls pattern).1 =
      t.withMethods (t.methods.map fun m =>
        m.withBody ((t.newBody? calls pattern m).or m.body?)) := by
  unfold instrument newBody?
  cases hfield : t.loggerField? pattern with
  | none => exact (congrArg t.withMethods (List.map_id _)).symm
  | some field =>
    simp only [List.map_map]
    refine congrArg t.withMethods (List.map_congr_left fun m hm => ?_)
    let c : Candidate := ⟨t, t.ownFieldRef field, m⟩
    exact c.outcome_fst fun helig =>
      hroom c (mem_candidates.mpr ⟨field, hfield, m, hm, helig, rfl⟩)

end

theorem Module.mem_candidates_of_type (ht : t ∈ home.types) {c : Candidate}
    (hc : c ∈ t.candidates pattern) : c ∈ home.candidates pattern :=
  List.mem_flatMap_of_mem ht hc

theorem Module.instrument_withBodies
    (hroom : ∀ c ∈ home.candidates pattern, c.HasRoom calls) (report : Report) :
    (home.instrument calls pattern report).1 =
      home.withBodies fun t m => t.newBody? calls pattern m := by
  rw [instrument_fst]
  refine congrArg home.withTypes (List.map_congr_left fun t ht => ?_)
  exact TypeDef.instrument_fst fun c hc => hroom c (mem_candidates_of_type ht hc)

end

/-! ## §6  Passes -/

section

variable {σ : Type} {resolve : ModuleReference → StateM σ Resolution} {s : Settings}
  {home : Module Body} {store : σ}

theorem Settings.isUnavailable_logCalls (s : Settings) (callable : MethodRef)
    (emptyArray : Except EmptyArrayError MethodRef) :
    (s.logCalls callable emptyArray).exit.isUnavailable =
      (s.exitLogging && !emptyArray.isOk) := by
  unfold logCalls
  cases s.exitLogging <;> cases emptyArray <;> rfl

/-- A pass that finds no logging method leaves the module as it is and has
nothing to report but that. -/
theorem Module.run_pass_of_none
    (hnone : (home.foundCallable resolve s store).1 = none) :
    ∃ r, ((home.pass resolve s).run store).1 = (home, r) ∧ r.instrumented = [] ∧
      r.skipped = [] ∧ r.hasErrors = false := by
  obtain ⟨hinstrumented, hskipped, herrors⟩ :=
    searchCallable_report resolve s.loggingCallable home.references {} store
  rw [foundCallable] at hnone
  rw [pass, StateT.run_bind]
  rcases hsearch :
    (searchCallable resolve s.loggingCallable home.references {}).run store
    with ⟨⟨answer, r⟩, store'⟩
  rw [hsearch] at hnone hinstrumented hskipped herrors
  cases answer with
  | ok callable => simp [Except.toOption] at hnone
  | error e =>
    exact ⟨r.raise .warning e.message, rfl, hinstrumented, hskipped,
      (r.hasErrors_raise _ _).trans (by rw [herrors]; rfl)⟩

/-- A pass that finds the logging method instruments the module with the log
calls that it has found. -/
theorem Module.run_pass_of_some {callable : MethodRef}
    (hsome : (home.foundCallable resolve s store).1 = some callable) :
    ∃ r, ((home.pass resolve s).run store).1 =
        home.instrument (s.logCalls callable (home.foundEmptyArray resolve s store))
          s.loggerField r ∧
      r.instrumented = [] ∧ r.skipped = [] ∧
      r.hasErrors = home.lacksEmptyArray resolve s store := by
  obtain ⟨hinstrumented, hskipped, herrors⟩ :=
    searchCallable_report resolve s.loggingCallable home.references {} store
  rw [foundCallable] at hsome
  rw [pass, StateT.run_bind, lacksEmptyArray, foundEmptyArray, foundCallable]
  rcases hsearch :
    (searchCallable resolve s.loggingCallable home.references {}).run store
    with ⟨⟨answer, r⟩, store'⟩
  rw [hsearch] at hsome hinstrumented hskipped herrors
  cases answer with
  | error e => simp [Except.toOption] at hsome
  | ok found =>
    obtain rfl : found = callable := by simpa [Except.toOption] using hsome
    simp only [bind, Settings.logCalls]
    cases hlogging : s.exitLogging with
    | false =>
        exact ⟨{ r with callable? := some found }, rfl, hinstrumented,
          hskipped, herrors⟩
    | true =>
      simp only [if_true, StateT.run, StateT.bind, bind]
      rcases searchEmptyArray resolve home s.scanModules store'
        with ⟨emptyArray, store''⟩
      cases emptyArray with
      | ok emptyArray =>
          exact ⟨{ r with callable? := some found }, rfl, hinstrumented,
            hskipped, herrors⟩
      | error e =>
        refine ⟨Report.raise { r with callable? := some found } .error e.message,
          rfl, hinstrumented, hskipped,
          (Report.hasErrors_raise _ _ _).trans (Bool.or_true _)⟩

end

/-- The report of a module that is instrumented: every candidate stands in one
of the two lists. -/
theorem Module.instrument_report {home : Module Body} {calls : LogCalls}
    {pattern : LoggerPattern} (hroom : ∀ c ∈ home.candidates pattern, c.HasRoom calls)
    (r : Report) :
    let skips (c : Candidate) : Bool :=
      c.isSkipped calls.callable calls.exit.isUnavailable
    let report := (home.instrument calls pattern r).2
    report.instrumented.map (fun x => (x.typeName, x.method)) =
        r.instrumented.map (fun x => (x.typeName, x.method)) ++
          ((home.candidates pattern).filter (!skips ·)).map Candidate.label ∧
      report.skipped.map (fun x => (x.typeName, x.method)) =
        r.skipped.map (fun x => (x.typeName, x.method)) ++
          ((home.candidates pattern).filter skips).map Candidate.label ∧
      report.hasErrors = r.hasErrors := by
  intro skips report
  have hreport : report =
      ((home.types.map (·.instrument calls pattern)).flatMap (·.2)).foldl
        Report.record r := rfl
  rw [hreport, Report.foldl_record, filterMap_instrument rfl,
    filterMap_instrument rfl]
  simp only [List.map_append, List.map_filterMap, ← List.filterMap_eq_filter]
  refine ⟨congrArg _ (List.filterMap_congr fun c hc => ?_),
    congrArg _ (List.filterMap_congr fun c hc => ?_), rfl⟩
  all_goals
    have helig := isEligible_of_mem_candidates hc
    cases hskip : skips c with
    | true =>
      obtain ⟨reason, houtcome⟩ := Candidate.outcome_of_isSkipped helig hskip
      simp [houtcome, hskip, Outcome.instrumented?, Outcome.skipped?,
        Candidate.label, Option.guard]
    | false =>
      obtain ⟨p, w, -, -, houtcome⟩ :=
        Candidate.outcome_of_not_isSkipped helig (hroom c hc) hskip
      simp [houtcome, hskip, Outcome.instrumented?, Outcome.skipped?,
        Candidate.label, Option.guard]

/-- What a pass touches and reports. Without a logging method it does nothing.
Otherwise its candidates are split, in their order, into those that the report
lists as instrumented and those that it lists as skipped; exactly the former
have a new body, the one with all their log calls, and all else is as it was. An
error is reported exactly when returns are to be logged and cannot, and then
nothing has changed. -/
theorem Module.pass_touches_and_reports {σ : Type}
    (resolve : ModuleReference → StateM σ Resolution) (s : Settings)
    (home : Module Body) (store : σ)
    (hroom : ∀ callable, (home.foundCallable resolve s store).1 = some callable →
      ∀ c ∈ home.candidates s.loggerField,
        c.HasRoom (s.logCalls callable (home.foundEmptyArray resolve s store))) :
    ∃ done report, ((home.pass resolve s).run store).1 = (done, report) ∧
      ((home.foundCallable resolve s store).1 = none →
        done = home ∧ report.instrumented = [] ∧ report.skipped = [] ∧
        report.hasErrors = false) ∧
      ∀ callable, (home.foundCallable resolve s store).1 = some callable →
        let skips (c : Candidate) : Bool :=
          c.isSkipped callable (home.lacksEmptyArray resolve s store)
        let candidates := home.candidates s.loggerField
        let exit := (s.logCalls callable (home.foundEmptyArray resolve s store)).exit
        report.instrumented.map (fun x => (x.typeName, x.method)) =
            (candidates.filter (!skips ·)).map Candidate.label ∧
          report.skipped.map (fun x => (x.typeName, x.method)) =
            (candidates.filter skips).map Candidate.label ∧
          (∃ new?, done = home.withBodies new? ∧ ∀ t ∈ home.types, ∀ m ∈ t.methods,
            ((new? t m).isSome = true ↔
              ∃ c ∈ t.candidates s.loggerField, c.method = m ∧ skips c = false) ∧
            ∀ w, new? t m = some w → ∃ logger p, m.plan logger callable exit = .ok p ∧
              m.apply p = (.ok p.exits.length, m.withBody (some w))) ∧
          report.hasErrors = home.lacksEmptyArray resolve s store ∧
          (home.lacksEmptyArray resolve s store = true →
            report.instrumented = [] ∧ done = home) := by
  cases hfound : (home.foundCallable resolve s store).1 with
  | none =>
    obtain ⟨r, hrun, hrest⟩ := run_pass_of_none hfound
    exact ⟨home, r, hrun, fun _ => ⟨rfl, hrest⟩, by simp⟩
  | some callable =>
    obtain ⟨r, hrun, hinstrumented, hskipped, herrors⟩ := run_pass_of_some hfound
    refine ⟨_, _, hrun, by simp, ?_⟩
    rintro callable' ⟨⟩
    have hroom := hroom callable hfound
    let calls := s.logCalls callable (home.foundEmptyArray resolve s store)
    have hlacks : calls.exit.isUnavailable = home.lacksEmptyArray resolve s store :=
      s.isUnavailable_logCalls callable _
    obtain ⟨hnew, hold, hsame⟩ := instrument_report hroom r
    have hbodies := instrument_withBodies hroom r
    have hiff {t : TypeDef Body} (ht : t ∈ home.types) {m : MethodDef Body}
        (hm : m ∈ t.methods) :=
      TypeDef.newBody?_iff (fun c hc => hroom c (mem_candidates_of_type ht hc)) hm
    rw [hlacks] at hnew hold
    rw [hinstrumented] at hnew
    rw [hskipped] at hold
    refine ⟨hnew, hold, ⟨_, hbodies, ?_⟩, hsame.trans herrors, ?_⟩
    · intro t ht m hm
      rw [← hlacks]
      exact hiff ht hm
    · intro hlacking
      have hskips : ∀ c : Candidate, c.isSkipped callable true = true := by
        simp [Candidate.isSkipped]
      refine ⟨List.map_eq_nil_iff.mp (hnew.trans ?_),
        hbodies.trans (withBodies_eq_self fun t ht m hm => ?_)⟩
      · have hnone : (home.candidates s.loggerField).filter
            (fun c => !c.isSkipped callable (home.lacksEmptyArray resolve s store)) =
            [] := by
          simp [hlacking, hskips]
        exact congrArg (List.map Candidate.label) hnone
      · rw [← Option.not_isSome_iff_eq_none, (hiff ht hm).1]
        rintro ⟨c, -, -, hc⟩
        rw [hlacks, hlacking] at hc
        exact Bool.false_ne_true (hc.symm.trans (hskips c))

def hollowMethod : MethodDef Body :=
  { waitingMethod with name := "Hollow", body? := some (.empty 2) }

/-- A type with a logger field, a constructor, a method without instructions, a
method that waits, and a static method that does the same. -/
def serviceType : TypeDef Body :=
  { space := "App", name := "Service", isValueType := false, genericParams := []
    fields :=
      [⟨sampleLogger.name, sampleLogger.fieldType, .privateAccess, false, true⟩]
    methods := [{ waitingMethod with name := ".ctor" }, hollowMethod, waitingMethod,
      { waitingMethod with name := "Main", isStatic := true }] }

def service : Module Body := application.withTypes [serviceType]

def loggingAtHand (r : ModuleReference) : StateM Unit Resolution :=
  pure ((ModuleTable.ofList [levelledLogging]).resolve r)

theorem pass_touches_service :
    (service.foundCallable loggingAtHand levelledSettings ()).1.isSome = true ∧
    ∃ done report,
      ((service.pass loggingAtHand levelledSettings).run ()).1 = (done, report) ∧
      report.instrumented.map (fun x => (x.typeName, x.method)) =
        [("App.Service", "Wait")] ∧
      report.skipped.map (fun x => (x.typeName, x.method)) =
        [("App.Service", "Hollow")] ∧
      report.hasErrors = false := by
  have hfound :
      (service.foundCallable loggingAtHand levelledSettings ()).1.isSome = true := by
    decide +kernel
  obtain ⟨callable, hcallable⟩ := Option.isSome_iff_exists.mp hfound
  have hcandidates : service.candidates levelledSettings.loggerField =
      [⟨serviceType, sampleLogger, hollowMethod⟩,
        ⟨serviceType, sampleLogger, waitingMethod⟩] := by rfl
  have hlacks : service.lacksEmptyArray loggingAtHand levelledSettings () = false :=
    rfl
  have hhollow :
      Candidate.isSkipped ⟨serviceType, sampleLogger, hollowMethod⟩ callable false =
        true := rfl
  have hwaiting :
      Candidate.isSkipped ⟨serviceType, sampleLogger, waitingMethod⟩ callable false =
        false := rfl
  have hroom : ∀ calls, ∀ c ∈ service.candidates levelledSettings.loggerField,
      c.HasRoom calls := by
    intro calls c hc
    refine Candidate.hasRoom ?_
    rw [hcandidates] at hc
    simp only [List.mem_cons, List.not_mem_nil, or_false] at hc
    rcases hc with rfl | rfl
    · rintro _ ⟨⟩
      decide
    · rintro _ ⟨⟩
      decide
  obtain ⟨done, report, hrun, -, hreport⟩ :=
    service.pass_touches_and_reports loggingAtHand levelledSettings ()
      fun _ _ => hroom _
  obtain ⟨hinstrumented, hskipped, -, herrors, -⟩ := hreport callable hcallable
  rw [hcandidates, hlacks] at hinstrumented hskipped
  refine ⟨hfound, done, report, hrun, hinstrumented.trans ?_, hskipped.trans ?_,
    herrors.trans hlacks⟩
  · simp only [List.filter_cons, hhollow, hwaiting]
    rfl
  · simp only [List.filter_cons, hhollow, hwaiting]
    rfl

end Instrumentation
