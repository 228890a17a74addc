import Instrumentation.CallableSearch

/-!
# The first match of the search

The search for the logging method goes through references, the types of a module
and the methods of a type, and takes the first method that fits. It is stated
here which one that is, by what stands before it: references that do not resolve
or come to modules without such a method, types of other names or without one,
methods that do not fit. Nothing that stands before a match hides it. Every
reference that does not resolve leaves a warning, a match leaves an info, and
the rest of the report stays as it is.

Resolving a reference may change what the next one comes to, so references are
tried in order from a state of the resolver. The search stops at a match, and up
to there it has tried the same.

Sections: §1 the first method of a module · §2 references · §3 the search.
-/

namespace Instrumentation

/-! ## §1  The first method of a module -/

section

variable {β : Type} {lib : Module β} {p : MethodPattern} {t : TypeDef β}
  {m : MethodDef β}

/-- Whether a type is called what the pattern's type is called; several types of
a module may be. -/
def MethodPattern.Names (p : MethodPattern) (t : TypeDef β) : Prop :=
  t.space = p.space ∧ t.name = p.declaringType

/-- Whether a module has a method that the search takes. -/
def Module.Declares (lib : Module β) (p : MethodPattern) : Prop :=
  ∃ t ∈ lib.types, p.Names t ∧ ∃ m ∈ t.methods, p.fits m = true

/-- A method that fits, in a type of the pattern's name, with no such method
before it in the module. -/
structure Module.DeclaresFirst (lib : Module β) (p : MethodPattern) (t : TypeDef β)
    (m : MethodDef β) : Prop where
  named : p.Names t
  fits : p.fits m = true
  earlierTypes : ∃ before after, lib.types = before ++ t :: after ∧
    ∀ other ∈ before, p.Names other → ∀ m ∈ other.methods, p.fits m = false
  earlierMethods : ∃ before after, t.methods = before ++ m :: after ∧
    ∀ other ∈ before, p.fits other = false

theorem findSome?_filter {α γ : Type} (q : α → Bool) (f : α → Option γ)
    (xs : List α) :
    (xs.filter q).findSome? f = xs.findSome? fun x => if q x then f x else none := by
  induction xs with
  | nil => rfl
  | cons x xs ih => by_cases hq : q x <;> simp [hq, ih, List.findSome?_cons]

def Module.callableIn? (lib : Module β) (p : MethodPattern) (t : TypeDef β) :
    Option MethodRef :=
  if t.space == p.space && t.name == p.declaringType then
    (t.methods.find? p.fits).map (lib.methodRef t)
  else none

theorem Module.callable?_eq :
    lib.callable? p = lib.types.findSome? (lib.callableIn? p) :=
  findSome?_filter _ _ _

theorem Module.callableIn?_of_names (hnamed : p.Names t) :
    lib.callableIn? p t = (t.methods.find? p.fits).map (lib.methodRef t) := by
  simp [callableIn?, hnamed.1, hnamed.2]

theorem Module.callableIn?_of_not_names (hnamed : ¬ p.Names t) :
    lib.callableIn? p t = none := by
  have hguard : ¬ (t.space == p.space && t.name == p.declaringType) = true := by
    simpa [MethodPattern.Names] using hnamed
  rw [callableIn?, if_neg hguard]

theorem Module.callableIn?_eq_none_iff :
    lib.callableIn? p t = none ↔ (p.Names t → ∀ m ∈ t.methods, p.fits m = false) := by
  by_cases hnamed : p.Names t
  · simp [callableIn?_of_names hnamed, hnamed]
  · simp [callableIn?_of_not_names hnamed, hnamed]

theorem Module.callableIn?_eq_some_iff {callable : MethodRef} :
    lib.callableIn? p t = some callable ↔
    p.Names t ∧ ∃ m, p.fits m = true ∧ callable = lib.methodRef t m ∧
      ∃ before after, t.methods = before ++ m :: after ∧
        ∀ other ∈ before, p.fits other = false := by
  by_cases hnamed : p.Names t
  · simp only [callableIn?_of_names hnamed, Option.map_eq_some_iff,
      List.find?_eq_some_iff_append, Bool.not_eq_true']
    constructor
    · rintro ⟨m, ⟨hfits, hsplit⟩, rfl⟩
      exact ⟨hnamed, m, hfits, rfl, hsplit⟩
    · rintro ⟨-, m, hfits, rfl, hsplit⟩
      exact ⟨m, ⟨hfits, hsplit⟩, rfl⟩
  · simp [callableIn?_of_not_names hnamed, hnamed]

theorem Module.callable?_eq_some_iff {callable : MethodRef} :
    lib.callable? p = some callable ↔
    ∃ t m, lib.DeclaresFirst p t m ∧ callable = lib.methodRef t m := by
  rw [callable?_eq, List.findSome?_eq_some_iff]
  constructor
  · rintro ⟨before, t, after, htypes, hfound, hnone⟩
    obtain ⟨hnamed, m, hfits, rfl, hsplit⟩ := callableIn?_eq_some_iff.mp hfound
    have hearlier :=
      fun other hother => callableIn?_eq_none_iff.mp (hnone other hother)
    exact ⟨t, m, ⟨hnamed, hfits, ⟨before, after, htypes, hearlier⟩, hsplit⟩, rfl⟩
  · rintro ⟨t, m, ⟨hnamed, hfits, ⟨before, after, htypes, hearlier⟩, hsplit⟩, rfl⟩
    refine ⟨before, t, after, htypes,
      callableIn?_eq_some_iff.mpr ⟨hnamed, m, hfits, rfl, hsplit⟩, ?_⟩
    exact fun other hother => callableIn?_eq_none_iff.mpr (hearlier other hother)

theorem Module.callable?_eq_none_iff : lib.callable? p = none ↔ ¬ lib.Declares p := by
  rw [callable?_eq, List.findSome?_eq_none_iff]
  simp only [callableIn?_eq_none_iff, Declares, not_exists, not_and, Bool.not_eq_true]

end

/-! ## §2  References -/

section

variable {σ : Type} {resolve : ModuleReference → StateM σ Resolution}
  {p : MethodPattern}

def tryAll (resolve : ModuleReference → StateM σ Resolution) :
    List ModuleReference → σ → List (ModuleReference × Resolution)
  | [], _ => []
  | r :: rs, store =>
      (r, ((resolve r).run store).1) :: tryAll resolve rs ((resolve r).run store).2

/-- Whether no reference has come to a module with a method that the search
takes. -/
def NoneDeclares (p : MethodPattern) (tries : List (ModuleReference × Resolution)) :
    Prop :=
  ∀ r lib, (r, Except.ok lib) ∈ tries → ¬ lib.Declares p

def skipWarning? : ModuleReference × Resolution → Option Diagnostic
  | (r, .error e) =>
      some ⟨.warning, "Skipping reference " ++ r.name ++ ": " ++ e.message⟩
  | (_, .ok _) => none

def skipWarnings (tries : List (ModuleReference × Resolution)) : List Diagnostic :=
  tries.filterMap skipWarning?

@[simp] theorem skipWarnings_error (r : ModuleReference) (e : ResolutionError)
    (tries : List (ModuleReference × Resolution)) :
    skipWarnings ((r, .error e) :: tries) =
      ⟨.warning, "Skipping reference " ++ r.name ++ ": " ++ e.message⟩ ::
        skipWarnings tries :=
  rfl

@[simp] theorem skipWarnings_ok (r : ModuleReference) (lib : Module StoredBody)
    (tries : List (ModuleReference × Resolution)) :
    skipWarnings ((r, .ok lib) :: tries) = skipWarnings tries :=
  rfl

def foundInfo (p : MethodPattern) (lib : Module StoredBody) : Diagnostic :=
  ⟨.info, "Found correct " ++ p.method ++ " method in " ++ lib.name⟩

/-- Either no reference comes to a module with the method, or there is a first
one that does. -/
theorem noneDeclares_or_first (p : MethodPattern)
    (tries : List (ModuleReference × Resolution)) :
    NoneDeclares p tries ∨
      ∃ before r lib rest, tries = before ++ (r, .ok lib) :: rest ∧
        NoneDeclares p before ∧ ∃ callable, lib.callable? p = some callable := by
  induction tries with
  | nil => exact .inl fun r lib hin => absurd hin List.not_mem_nil
  | cons x tries ih =>
    by_cases hfirst : ∃ r lib callable, x = (r, .ok lib) ∧
      lib.callable? p = some callable
    · obtain ⟨r, lib, callable, rfl, hsome⟩ := hfirst
      exact .inr ⟨[], r, lib, tries, rfl,
        fun r lib hin => absurd hin List.not_mem_nil, callable, hsome⟩
    · have hhead (r : ModuleReference) (lib : Module StoredBody)
          (hx : (r, .ok lib) = x) : ¬ lib.Declares p := by
        rw [← Module.callable?_eq_none_iff, Option.eq_none_iff_forall_ne_some]
        exact fun callable hsome => hfirst ⟨r, lib, callable, hx.symm, hsome⟩
      rcases ih with hnone | ⟨before, r, lib, rest, rfl, hnone, hsome⟩
      · exact .inl fun r lib hin => (List.mem_cons.mp hin).elim
          (hhead r lib) (hnone r lib)
      · exact .inr ⟨x :: before, r, lib, rest, rfl,
          fun r lib hin => (List.mem_cons.mp hin).elim (hhead r lib) (hnone r lib),
          hsome⟩

/-! ## §3  The search -/

theorem run_searchCallable_cons (r : ModuleReference) (rs : List ModuleReference)
    (report : Report) (store : σ) :
    ((searchCallable resolve p (r :: rs) report).run store).1 =
      match ((resolve r).run store).1 with
      | .error e =>
        ((searchCallable resolve p rs
          (report.raise .warning
            ("Skipping reference " ++ r.name ++ ": " ++ e.message))).run
              ((resolve r).run store).2).1
      | .ok lib =>
        match lib.callable? p with
        | some callable =>
          (.ok callable, report.raise .info
            ("Found correct " ++ p.method ++ " method in " ++ lib.name))
        | none =>
          ((searchCallable resolve p rs report).run ((resolve r).run store).2).1 := by
  rw [searchCallable, StateT.run_bind]
  rcases (resolve r).run store with ⟨answer, store'⟩
  cases answer with
  | error e => rfl
  | ok lib =>
    simp only [bind]
    cases lib.callable? p <;> rfl

theorem search_of_noneDeclares {references : List ModuleReference} {report : Report}
    {store : σ} (hnone : NoneDeclares p (tryAll resolve references store)) :
    ((searchCallable resolve p references report).run store).1 =
      (.error (.notFound p.signature), { report with
        diagnostics := report.diagnostics ++
          skipWarnings (tryAll resolve references store) }) := by
  induction references generalizing report store with
  | nil =>
    simp only [tryAll, skipWarnings, List.filterMap_nil, List.append_nil]
    rfl
  | cons r rs ih =>
    have hrest : NoneDeclares p (tryAll resolve rs ((resolve r).run store).2) := by
      intro other lib hin
      exact hnone other lib (List.mem_cons_of_mem _ hin)
    rw [run_searchCallable_cons, tryAll]
    cases hanswer : ((resolve r).run store).1 with
    | error e => simp [ih hrest, Report.raise]
    | ok lib =>
      have hlib : lib.callable? p = none := by
        refine Module.callable?_eq_none_iff.mpr (hnone r lib ?_)
        rw [tryAll, hanswer]
        exact List.mem_cons_self
      simp [hlib, ih hrest]

theorem search_of_callable? {references : List ModuleReference} {report : Report}
    {store : σ} {before rest : List (ModuleReference × Resolution)}
    {r : ModuleReference} {lib : Module StoredBody} {callable : MethodRef}
    (htries : tryAll resolve references store = before ++ (r, .ok lib) :: rest)
    (hnone : NoneDeclares p before) (hsome : lib.callable? p = some callable) :
    ((searchCallable resolve p references report).run store).1 =
      (.ok callable, { report with
        diagnostics := report.diagnostics ++ skipWarnings before ++
          [foundInfo p lib] }) := by
  induction references generalizing report store before with
  | nil => simp [tryAll] at htries
  | cons r' rs ih =>
    rw [run_searchCallable_cons]
    rw [tryAll] at htries
    cases before with
    | nil =>
      obtain ⟨hhead, -⟩ := List.cons.inj htries
      obtain ⟨rfl, hanswer⟩ := Prod.mk.inj hhead
      simp [hanswer, hsome, skipWarnings, foundInfo, Report.raise]
    | cons x before =>
      obtain ⟨rfl, hrest⟩ := List.cons.inj htries
      have hnone' : NoneDeclares p before :=
        fun other lib hin => hnone other lib (List.mem_cons_of_mem _ hin)
      cases hanswer : ((resolve r').run store).1 with
      | error e => simp [ih hrest hnone', Report.raise]
      | ok other =>
        have hother : other.callable? p = none := by
          refine Module.callable?_eq_none_iff.mpr (hnone r' other ?_)
          rw [hanswer]
          exact List.mem_cons_self
        simp [hother, ih hrest hnone']

/-- The search takes the first method that fits, in the order of references,
types and methods, and fails if and only if no reference comes to a module that
has one. All it does to the report is to add a warning for every reference
before the match that does not resolve, and an info for the match. -/
theorem search_takes_first_match {β : Type}
    (resolve : ModuleReference → StateM σ Resolution) (home : Module β)
    (p : MethodPattern) (report : Report) (store : σ) :
    let tries := tryAll resolve home.references store
    let outcome := ((searchCallable resolve p home.references report).run store).1
    (∀ callable after, outcome = (.ok callable, after) ↔
      ∃ before r lib rest t m, tries = before ++ (r, .ok lib) :: rest ∧
        NoneDeclares p before ∧ lib.DeclaresFirst p t m ∧
        callable = lib.methodRef t m ∧ callable.scope? = some lib.name ∧
        after = { report with
          diagnostics := report.diagnostics ++ skipWarnings before ++
            [foundInfo p lib] }) ∧
    ∀ cause after, outcome = (.error cause, after) ↔
      NoneDeclares p tries ∧ cause = .notFound p.signature ∧
        after = { report with
          diagnostics := report.diagnostics ++ skipWarnings tries } := by
  intro tries outcome
  constructor
  · intro callable after
    constructor
    · intro hfound
      rcases noneDeclares_or_first p tries
        with hnone | ⟨before, r, lib, rest, htries, hnone, found, hsome⟩
      · cases hfound.symm.trans (search_of_noneDeclares hnone)
      · obtain ⟨hcallable, hafter⟩ :=
          Prod.mk.inj (hfound.symm.trans (search_of_callable? htries hnone hsome))
        obtain ⟨t, m, hfirst, rfl⟩ := Module.callable?_eq_some_iff.mp hsome
        obtain rfl := Except.ok.inj hcallable
        exact ⟨before, r, lib, rest, t, m, htries, hnone, hfirst, rfl, rfl, hafter⟩
    · rintro ⟨before, r, lib, rest, t, m, htries, hnone, hfirst, rfl, -, rfl⟩
      exact search_of_callable? htries hnone
        (Module.callable?_eq_some_iff.mpr ⟨t, m, hfirst, rfl⟩)
  · intro cause after
    constructor
    · intro hfailed
      rcases noneDeclares_or_first p tries
        with hnone | ⟨before, r, lib, rest, htries, hnone, found, hsome⟩
      · obtain ⟨hcause, hafter⟩ :=
          Prod.mk.inj (hfailed.symm.trans (search_of_noneDeclares hnone))
        exact ⟨hnone, Except.error.inj hcause, hafter⟩
      · cases hfailed.symm.trans (search_of_callable? htries hnone hsome)
    · rintro ⟨hnone, rfl, rfl⟩
      exact search_of_noneDeclares hnone

end

def writeMethod (genericParams : List String) : MethodDef StoredBody :=
  { name := "Write", visibility := .publicAccess, isStatic := true, genericParams
    params := [⟨"message", .string⟩], returnType := .void, body? := none }

def logType (methods : List (MethodDef StoredBody)) : TypeDef StoredBody :=
  { space := "App", name := "Log", isValueType := false, genericParams := [],
    fields := [], methods }

def logLibrary (name : String) (types : List (TypeDef StoredBody)) :
    Module StoredBody :=
  { name, coreLibrary? := none, references := [], types }

/-- The method stands behind a reference that does not resolve and one that
comes to a module without it, in the second type of the name, after an overload
that does not fit. -/
theorem search_takes_first_match_overload :
    let plain := logLibrary "Plain" [logType [writeMethod ["T"]]]
    let overloaded := logType [writeMethod ["T"], writeMethod []]
    let lib := logLibrary "Logging" [logType [], overloaded]
    let home := { lib with
      references := [⟨"Missing", none⟩, ⟨"Plain", none⟩, ⟨"Logging", none⟩] }
    ((searchCallable (fun r =>
      (pure ((ModuleTable.ofList [plain, lib]).resolve r) : StateM Unit Resolution))
      ⟨"App", "Log", "Write", ["System.String"]⟩ home.references {}).run ()).1 =
      (.ok (lib.methodRef overloaded (writeMethod [])),
        { diagnostics :=
            [⟨.warning, "Skipping reference Missing: Module Missing not found"⟩,
            ⟨.info, "Found correct Write method in Logging"⟩] }) := by
  intro plain overloaded lib home
  refine ((search_takes_first_match _ home _ {} ()).1 _ _).mpr
    ⟨[(⟨"Missing", none⟩, .error (.notFound "Missing")),
        (⟨"Plain", none⟩, .ok plain)], ⟨"Logging", none⟩,
      lib, [], overloaded, writeMethod [], rfl, ?_, ?_, rfl, rfl, rfl⟩
  · intro r other hin
    obtain ⟨-, rfl⟩ : r = ⟨"Plain", none⟩ ∧ other = plain := by simpa using hin
    rintro ⟨t, ht, -, m, hm, hfits⟩
    obtain rfl := List.mem_singleton.mp ht
    obtain rfl := List.mem_singleton.mp hm
    exact absurd hfits (by decide)
  · refine ⟨⟨rfl, rfl⟩, by decide, ⟨[logType []], [], rfl, ?_⟩,
      ⟨[writeMethod ["T"]], [], rfl, ?_⟩⟩
    · intro t ht _ m hm
      obtain rfl := List.mem_singleton.mp ht
      cases hm
    · intro m hm
      obtain rfl := List.mem_singleton.mp hm
      decide

end Instrumentation
