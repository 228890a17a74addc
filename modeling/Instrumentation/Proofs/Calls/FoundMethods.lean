import Instrumentation.CallableSearch
import Instrumentation.EmptyArray

/-!
# Methods that the searches come up with

Two searches go through the modules that a resolver comes up with and make a
reference to a method that they find there. The one for the logging method
writes down what the definition says, and as it asks for a method that is not
generic, no type arguments is what the definition asks for, too. The one for the
factory of empty arrays writes down a static call with one type argument, but
asks for neither: a method that wants a receiver or more type arguments is
referred to all the same.

Sections: §1 what is found · §2 what agrees.
-/

namespace Instrumentation

/-! ## §1  What is found -/

theorem Module.exists_method_of_callable? {β : Type}
    {lib : Module β} {pattern : MethodPattern} {callable : MethodRef}
    (hsome : lib.callable? pattern = some callable) :
    ∃ t ∈ lib.types, t.space = pattern.space ∧ t.name = pattern.declaringType ∧
      ∃ m ∈ t.methods, pattern.fits m = true ∧ callable = lib.methodRef t m := by
  obtain ⟨t, ht, hfound⟩ := List.exists_of_findSome?_eq_some hsome
  obtain ⟨m, hm, rfl⟩ := Option.map_eq_some_iff.mp hfound
  obtain ⟨hin, hnames⟩ := List.mem_filter.mp ht
  simp only [Bool.and_eq_true, beq_iff_eq] at hnames
  exact ⟨t, hin, hnames.1, hnames.2, m, List.mem_of_find?_eq_some hm,
    List.find?_some hm, rfl⟩

theorem exists_method_of_emptyFactory? {lib : Module StoredBody}
    {t : TypeDef StoredBody} {emptyArray : MethodRef}
    (hok : emptyFactory? lib t = .ok emptyArray) :
    ∃ m ∈ t.methods, m.isEmptyFactory = true ∧
      emptyArray =
        { lib.methodRef t m with hasThis := false, genericArgs := [.object] } := by
  unfold emptyFactory? at hok
  split at hok
  · cases hok
  · rename_i m hfind
    have hm := List.find?_some hfind
    simp only [MethodDef.isEmptyFactory, Bool.and_eq_true, List.isEmpty_iff] at hm
    refine ⟨m, List.mem_of_find?_eq_some hfind, List.find?_some hfind, ?_⟩
    rw [← Except.ok.inj hok, Module.methodRef, MethodDef.paramTypes, hm.2]
    rfl

section

variable {σ : Type} (resolve : ModuleReference → StateM σ Resolution) (start : σ)

/-- The states of a resolver that resolving leads to. -/
inductive Reaches : σ → Prop
  | start : Reaches start
  | resolve {store : σ} (reference : ModuleReference) :
      Reaches store → Reaches ((resolve reference).run store).2

/-- Whether a reference can come to a module, in a state that resolving leads to. -/
def Resolves (lib : Module StoredBody) : Prop :=
  ∃ store reference, Reaches resolve start store ∧
    ((resolve reference).run store).1 = .ok lib

end

section

variable {σ : Type} {resolve : ModuleReference → StateM σ Resolution}
  {start store : σ}

theorem Reaches.searchCallable (hstore : Reaches resolve start store)
    (pattern : MethodPattern) (references : List ModuleReference) (report : Report) :
    Reaches resolve start
      ((searchCallable resolve pattern references report).run store).2 := by
  induction references generalizing report store with
  | nil => exact hstore
  | cons reference references ih =>
    have hnext := hstore.resolve reference
    rw [Instrumentation.searchCallable, StateT.run_bind]
    rcases hresolve : (resolve reference).run store with ⟨answer, store'⟩
    rw [hresolve] at hnext
    cases answer with
    | error e => exact ih hnext _
    | ok lib =>
      simp only [bind]
      cases lib.callable? pattern with
      | none => exact ih hnext report
      | some found => exact hnext

theorem exists_resolves_of_searchCallable {pattern : MethodPattern}
    {references : List ModuleReference} {report : Report} {callable : MethodRef}
    (hstore : Reaches resolve start store)
    (hok : ((searchCallable resolve pattern references report).run store).1.1 =
      .ok callable) :
    ∃ lib, Resolves resolve start lib ∧ lib.callable? pattern = some callable := by
  induction references generalizing report store with
  | nil => cases hok
  | cons reference references ih =>
    have hnext := hstore.resolve reference
    rw [searchCallable, StateT.run_bind] at hok
    rcases hresolve : (resolve reference).run store with ⟨answer, store'⟩
    rw [hresolve] at hok hnext
    cases answer with
    | error e => exact ih hnext hok
    | ok lib =>
      simp only [bind] at hok
      cases hcallable : lib.callable? pattern with
      | none =>
        rw [hcallable] at hok
        exact ih hnext hok
      | some found =>
        rw [hcallable] at hok
        obtain rfl : found = callable := Except.ok.inj hok
        exact ⟨lib, ⟨store, reference, hstore, by rw [hresolve]⟩, hcallable⟩

theorem exists_resolves_of_searchArrayType {names : List String}
    {lib : Module StoredBody} {t : TypeDef StoredBody}
    (hstore : Reaches resolve start store)
    (hsome : ((searchArrayType resolve names).run store).1 = some (lib, t)) :
    Resolves resolve start lib ∧ lib.type? "System" "Array" = some t := by
  induction names generalizing store with
  | nil => cases hsome
  | cons name names ih =>
    have hnext := hstore.resolve ⟨name, none⟩
    rw [searchArrayType, StateT.run_bind] at hsome
    rcases hresolve : (resolve ⟨name, none⟩).run store with ⟨answer, store'⟩
    rw [hresolve] at hsome hnext
    cases answer with
    | error e => exact ih hnext hsome
    | ok found =>
      simp only [bind] at hsome
      cases htype : found.type? "System" "Array" with
      | none =>
        rw [htype] at hsome
        exact ih hnext hsome
      | some t' =>
        rw [htype] at hsome
        obtain ⟨rfl, rfl⟩ := Prod.mk.inj (Option.some.inj hsome)
        exact ⟨⟨store, ⟨name, none⟩, hstore, by rw [hresolve]⟩, htype⟩

theorem exists_resolves_of_searchEmptyArray {β : Type} {home : Module β}
    {scanModules : List String} {emptyArray : MethodRef}
    (hstore : Reaches resolve start store)
    (hok : ((searchEmptyArray resolve home scanModules).run store).1 =
      .ok emptyArray) :
    ∃ lib t, Resolves resolve start lib ∧ lib.type? "System" "Array" = some t ∧
      emptyFactory? lib t = .ok emptyArray := by
  rw [searchEmptyArray, StateT.run_bind] at hok
  rcases hsearch : (searchArrayType resolve (home.arrayCandidates scanModules)).run
    store with ⟨answer, store'⟩
  rw [hsearch] at hok
  cases answer with
  | none => cases hok
  | some found =>
    obtain ⟨lib, t⟩ := found
    obtain ⟨hlib, ht⟩ :=
      exists_resolves_of_searchArrayType hstore (congrArg Prod.fst hsearch)
    exact ⟨lib, t, hlib, ht, hok⟩

end

theorem Module.mem_of_type? {β : Type} {lib : Module β} {space name : String}
    {t : TypeDef β} (hsome : lib.type? space name = some t) : t ∈ lib.types :=
  List.mem_of_find?_eq_some hsome

/-! ## §2  What agrees -/

/-- A reference says of a method what its definition says: where it is declared,
how it is called, how many type arguments it takes. -/
structure MethodRef.Agrees {β : Type} (r : MethodRef) (lib : Module β) (t : TypeDef β)
    (m : MethodDef β) : Prop where
  scope : r.scope? = some lib.name
  declaringType : r.declaringType = t.receiverType
  name : r.name = m.name
  hasThis : r.hasThis = !m.isStatic
  params : r.params = m.paramTypes
  returnType : r.returnType = m.returnType
  genericArgs : r.genericArgs.length = m.genericParams.length

section

variable {β : Type} {lib : Module β} {t : TypeDef β} {m : MethodDef β}

theorem Module.agrees_methodRef_iff :
    (lib.methodRef t m).Agrees lib t m ↔ m.isGeneric = false := by
  constructor
  · intro hagrees
    have harity : m.genericParams.length = 0 := hagrees.genericArgs.symm
    simp [MethodDef.isGeneric, List.length_eq_zero_iff.mp harity]
  · intro hgeneric
    have hnone : m.genericParams = [] := by simpa [MethodDef.isGeneric] using hgeneric
    exact ⟨rfl, rfl, rfl, rfl, rfl, rfl, by rw [hnone]; rfl⟩

theorem MethodPattern.isGeneric_of_fits {pattern : MethodPattern}
    (hfits : pattern.fits m = true) : m.isGeneric = false := by
  simp only [fits, Bool.and_eq_true, Bool.not_eq_true'] at hfits
  exact hfits.1.1.2

theorem Module.agrees_emptyArray_iff :
    MethodRef.Agrees
      { lib.methodRef t m with hasThis := false, genericArgs := [.object] } lib t m ↔
      m.isStatic = true ∧ m.genericParams.length = 1 := by
  constructor
  · intro hagrees
    have hstatic : false = !m.isStatic := hagrees.hasThis
    have harity : 1 = m.genericParams.length := hagrees.genericArgs
    exact ⟨by simpa using hstatic.symm, harity.symm⟩
  · rintro ⟨hstatic, harity⟩
    exact ⟨rfl, rfl, rfl, by rw [hstatic]; rfl, rfl, rfl, harity.symm⟩

end

/-- Every logging method that is found agrees with a method that fits the
pattern, in a module that the resolver comes up with on the way. The factory of
empty arrays that is found is one in the type of arrays of such a module, and
agrees with it in all but this: it is called without a receiver and with one
type argument, whether or not the definition is static and has one type
parameter. -/
theorem found_methods_agree {σ β : Type}
    (resolve : ModuleReference → StateM σ Resolution) (home : Module β)
    (pattern : MethodPattern) (scanModules : List String)
    (report : Report) (store : σ) :
    (∀ callable,
      ((searchCallable resolve pattern home.references report).run store).1.1 =
        .ok callable →
      ∃ lib, Resolves resolve store lib ∧
        ∃ t ∈ lib.types, t.space = pattern.space ∧ t.name = pattern.declaringType ∧
          ∃ m ∈ t.methods, pattern.fits m = true ∧ callable.Agrees lib t m) ∧
    ∀ emptyArray,
      ((searchEmptyArray resolve home scanModules).run store).1 = .ok emptyArray →
      ∃ lib t, Resolves resolve store lib ∧ lib.type? "System" "Array" = some t ∧
        ∃ m ∈ t.methods, m.isEmptyFactory = true ∧
          emptyArray =
            { lib.methodRef t m with hasThis := false, genericArgs := [.object] } ∧
          (emptyArray.Agrees lib t m ↔
            m.isStatic = true ∧ m.genericParams.length = 1) := by
  constructor
  · intro callable hok
    obtain ⟨lib, hlib, hfound⟩ := exists_resolves_of_searchCallable .start hok
    obtain ⟨t, ht, hspace, hname, m, hm, hfits, rfl⟩ :=
      Module.exists_method_of_callable? hfound
    refine ⟨lib, hlib, t, ht, hspace, hname, m, hm, hfits, ?_⟩
    exact Module.agrees_methodRef_iff.mpr (MethodPattern.isGeneric_of_fits hfits)
  · intro emptyArray hok
    obtain ⟨lib, t, hlib, ht, hfactory⟩ :=
      exists_resolves_of_searchEmptyArray .start hok
    obtain ⟨m, hm, hempty, rfl⟩ := exists_method_of_emptyFactory? hfactory
    exact ⟨lib, t, hlib, ht, m, hm, hempty, rfl, Module.agrees_emptyArray_iff⟩

def arraysLibrary : Module StoredBody :=
  { name := "Core", coreLibrary? := none, references := []
    types := [{
      space := "System", name := "Array", isValueType := false,
      genericParams := [], fields := []
      methods := [{
        name := "Empty", visibility := .publicAccess, isStatic := true,
        genericParams := ["T"], params := []
        returnType := .array (.methodParam 0), body? := none }] }] }

def resolveTo (lib : Module StoredBody) (reference : ModuleReference) :
    StateM Unit Resolution :=
  pure ((ModuleTable.ofList [lib]).resolve reference)

theorem eq_of_resolves_resolveTo {lib found : Module StoredBody}
    (hfound : Resolves (resolveTo lib) () found) : found = lib := by
  obtain ⟨store, reference, -, hfound⟩ := hfound
  have hfound : (ModuleTable.ofList [lib]).resolve reference = .ok found := hfound
  unfold ModuleTable.resolve at hfound
  split at hfound
  · rename_i m hfind
    obtain rfl := Except.ok.inj hfound
    exact List.mem_singleton.mp (List.mem_of_find?_eq_some hfind)
  · cases hfound

def bareModule : Module Body :=
  { name := "App", coreLibrary? := some "Core", references := [], types := [] }

theorem found_methods_agree_arrays :
    ∃ emptyArray,
      ((searchEmptyArray (resolveTo arraysLibrary) bareModule []).run ()).1 =
        .ok emptyArray ∧
      ∃ t ∈ arraysLibrary.types, ∃ m ∈ t.methods,
        emptyArray.Agrees arraysLibrary t m := by
  obtain ⟨emptyArray, hok⟩ : ∃ r,
      ((searchEmptyArray (resolveTo arraysLibrary) bareModule []).run ()).1 = .ok r :=
    ⟨_, rfl⟩
  obtain ⟨-, hfactory⟩ := found_methods_agree (resolveTo arraysLibrary) bareModule
    ⟨"", "Log", "Write", []⟩ [] {} ()
  obtain ⟨lib, t, hlib, ht, m, hm, -, -, hagrees⟩ := hfactory emptyArray hok
  obtain rfl := eq_of_resolves_resolveTo hlib
  have hin := Module.mem_of_type? ht
  refine ⟨emptyArray, hok, t, hin, m, hm, hagrees.mpr ?_⟩
  obtain rfl := List.mem_singleton.mp hin
  obtain rfl := List.mem_singleton.mp hm
  exact ⟨rfl, rfl⟩

/-- The same library with a factory that wants a receiver. -/
def receiverLibrary : Module StoredBody :=
  { arraysLibrary with
    types := arraysLibrary.types.map fun t =>
      t.withMethods (t.methods.map fun m => { m with isStatic := false }) }

/-- A reference that is found need not agree with any definition that the
resolver comes up with. -/
theorem found_factory_disagrees : ¬ ∀ (σ : Type)
    (resolve : ModuleReference → StateM σ Resolution) (home : Module Body)
    (scanModules : List String) (store : σ) (emptyArray : MethodRef),
    ((searchEmptyArray resolve home scanModules).run store).1 = .ok emptyArray →
    ∃ lib, Resolves resolve store lib ∧ ∃ t ∈ lib.types, ∃ m ∈ t.methods,
      emptyArray.Agrees lib t m := by
  intro halways
  obtain ⟨lib, hlib, t, ht, m, hm, hagrees⟩ :=
    halways Unit (resolveTo receiverLibrary) bareModule [] () _ rfl
  -- the one module at hand has one method, and that one is not static
  obtain rfl := eq_of_resolves_resolveTo hlib
  obtain rfl := List.mem_singleton.mp ht
  obtain rfl := List.mem_singleton.mp hm
  cases hagrees.hasThis

end Instrumentation
