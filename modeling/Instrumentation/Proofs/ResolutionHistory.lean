import Instrumentation.ModuleFile
import Instrumentation.Proofs.Calls.FoundMethods
import Mathlib.Control.Monad.Basic

/-!
# Resolving while files change

Module files come and go, search paths are added, and between these changes
names are resolved. A name that has been resolved once keeps its module,
whatever becomes of the files. Up to then every resolution looks at the files as
they are and takes the file in the first of the search paths that has one, be it
a module or not: a file that is broken, or cannot be read at all, hides a good
one further on. A failure is forgotten, and what is kept under one name does not
show under another.

Sections: §1 one resolution · §2 histories · §3 what is kept · §4 resolving in a
history.
-/

namespace Instrumentation

/-! ## §1  One resolution -/

namespace SearchPaths

variable {s : SearchPaths} {files : FileTree} {r : ModuleReference}
  {name path : String} {m : Module StoredBody}

def fileIn (directory name : String) : String :=
  FileTree.join directory (name ++ ".json")

/-- What a look through directories comes to, in which the first file counts. -/
def lookThrough (files : FileTree) (name : String) (directories : List String) :
    Resolution :=
  match (directories.map (fileIn · name)).find? files.isFile with
  | none => .error (.notFound name)
  | some path => (Module.load files path).mapError (.load name)

/-- Whether a path is the file of a module in the first of some directories that
have one. -/
def FirstFile (files : FileTree) (name : String) (directories : List String)
    (path : String) : Prop :=
  files.isFile path = true ∧
    ∃ before directory after, directories = before ++ directory :: after ∧
      path = fileIn directory name ∧
        ∀ other ∈ before, files.isFile (fileIn other name) = false

theorem lookThrough_of_firstFile {directories : List String}
    (hfirst : FirstFile files name directories path) :
    lookThrough files name directories =
      (Module.load files path).mapError (.load name) := by
  obtain ⟨hfile, before, directory, after, rfl, rfl, hnone⟩ := hfirst
  have hfind :
      ((before ++ directory :: after).map (fileIn · name)).find? files.isFile =
        some (fileIn directory name) := by
    rw [List.map_append, List.map_cons, List.find?_eq_some_iff_append]
    refine ⟨hfile, _, _, rfl, ?_⟩
    simpa using hnone
  rw [lookThrough, hfind]

theorem lookThrough_of_nowhere {directories : List String}
    (hnone : ∀ directory ∈ directories,
      files.isFile (fileIn directory name) = false) :
    lookThrough files name directories = .error (.notFound name) := by
  have hfind : (directories.map (fileIn · name)).find? files.isFile = none := by
    simpa using hnone
  rw [lookThrough, hfind]

/-- What the first file comes to hangs on whether it can be read, and then on
whether its text is a module's. -/
theorem load_of_read {text : String} (hread : files.read path = .ok text) :
    Module.load files path =
      (Module.ofText text).mapError fun fault =>
        @ModuleError.invalid fault (files.unread files.nodes path) := by
  rw [Module.load, hread]

theorem load_of_unread {cause : String} (hread : files.read path = .error cause) :
    Module.load files path = .error (@ModuleError.inaccessible cause) := by
  rw [Module.load, hread]

def kept? (s : SearchPaths) (name : String) : Option (Module StoredBody) :=
  (s.loaded.find? (fun m => m.1 == name)).map (·.2)

theorem resolve_of_kept (hkept : s.kept? r.name = some m) :
    s.resolve files r = (.ok m, s) := by
  obtain ⟨⟨name, m'⟩, hfind, rfl⟩ := Option.map_eq_some_iff.mp hkept
  simp [resolve, hfind]

/-- All that a resolution can do: what is kept is answered; otherwise a failure
leaves everything as it is, and a module is kept. -/
theorem resolve_cases (s : SearchPaths) (files : FileTree) (r : ModuleReference) :
    (∃ m, s.kept? r.name = some m ∧ s.resolve files r = (.ok m, s)) ∨
      s.kept? r.name = none ∧
        ((∃ cause, lookThrough files r.name s.paths = .error cause ∧
          s.resolve files r = (.error cause, s)) ∨
          ∃ m, lookThrough files r.name s.paths = .ok m ∧
            s.resolve files r =
              (.ok m, { s with loaded := (r.name, m) :: s.loaded })) := by
  cases hkept : s.kept? r.name with
  | some m => exact .inl ⟨m, rfl, resolve_of_kept hkept⟩
  | none =>
    have hfind : s.loaded.find? (fun m => m.1 == r.name) = none :=
      Option.map_eq_none_iff.mp hkept
    refine .inr ⟨rfl, ?_⟩
    simp only [lookThrough, resolve, locate?, fileIn, hfind]
    cases (s.paths.map fun directory =>
      FileTree.join directory (r.name ++ ".json")).find? files.isFile with
    | none => exact .inl ⟨_, rfl, rfl⟩
    | some path =>
      dsimp only
      cases Module.load files path with
      | error cause => exact .inl ⟨_, rfl, rfl⟩
      | ok m => exact .inr ⟨m, rfl, rfl⟩

theorem exists_load_of_lookThrough {directories : List String}
    (hlook : lookThrough files name directories = .ok m) :
    ∃ path, files.isFile path = true ∧ Module.load files path = .ok m := by
  unfold lookThrough at hlook
  split at hlook
  · cases hlook
  · rename_i path hfind
    refine ⟨path, List.find?_some hfind, ?_⟩
    cases hload : Module.load files path with
    | error cause => rw [hload] at hlook; cases hlook
    | ok m' => exact congrArg Except.ok (Except.ok.inj (hload ▸ hlook))

theorem resolve_of_not_kept (hnone : s.kept? r.name = none) :
    (s.resolve files r).1 = lookThrough files r.name s.paths := by
  obtain ⟨m, hkept, -⟩ | ⟨-, ⟨cause, hlook, heq⟩ | ⟨m, hlook, heq⟩⟩ :=
    s.resolve_cases files r
  · cases hnone.symm.trans hkept
  · rw [heq, hlook]
  · rw [heq, hlook]

theorem resolve_of_error {cause : ResolutionError}
    (herror : (s.resolve files r).1 = .error cause) :
    (s.resolve files r).2 = s := by
  obtain ⟨m, -, heq⟩ | ⟨-, ⟨cause, -, heq⟩ | ⟨m, -, heq⟩⟩ := s.resolve_cases files r
  · rw [heq]
  · rw [heq]
  · rw [heq] at herror
    cases herror

@[simp] theorem paths_resolve : (s.resolve files r).2.paths = s.paths := by
  obtain ⟨m, -, heq⟩ | ⟨-, ⟨cause, -, heq⟩ | ⟨m, -, heq⟩⟩ :=
    s.resolve_cases files r <;> rw [heq]

/-- After a name has been resolved what is kept under it is what it came to. -/
theorem kept?_resolve_self :
    (s.resolve files r).2.kept? r.name = (s.resolve files r).1.toOption := by
  obtain ⟨m, hkept, heq⟩ | ⟨hnone, ⟨cause, -, heq⟩ | ⟨m, -, heq⟩⟩ :=
    s.resolve_cases files r
  · rw [heq]
    exact hkept
  · rw [heq]
    exact hnone
  · simp [heq, kept?, Except.toOption]

theorem kept?_resolve_of_ne (hne : r.name ≠ name) :
    (s.resolve files r).2.kept? name = s.kept? name := by
  obtain ⟨m, -, heq⟩ | ⟨-, ⟨cause, -, heq⟩ | ⟨m, -, heq⟩⟩ := s.resolve_cases files r
  · rw [heq]
  · rw [heq]
  · simp [heq, kept?, hne]

/-- Whether a module is kept or stands in a file. -/
def Has (s : SearchPaths) (files : FileTree) (m : Module StoredBody) : Prop :=
  (∃ name, (name, m) ∈ s.loaded) ∨
    ∃ path, files.isFile path = true ∧ Module.load files path = .ok m

theorem has_of_reaches {s' : SearchPaths} (hs' : Reaches (resolver files) s s') :
    ∀ x ∈ s'.loaded, s.Has files x.2 := by
  induction hs' with
  | start => exact fun x hx => .inl ⟨x.1, hx⟩
  | @resolve s' r _ ih =>
    change ∀ x ∈ (s'.resolve files r).2.loaded, s.Has files x.2
    obtain ⟨m, -, heq⟩ | ⟨-, ⟨cause, -, heq⟩ | ⟨m, hlook, heq⟩⟩ :=
      s'.resolve_cases files r
    · rw [heq]
      exact ih
    · rw [heq]
      exact ih
    · rw [heq]
      exact List.forall_mem_cons.mpr ⟨.inr (exists_load_of_lookThrough hlook), ih⟩

/-- Search paths come up with nothing but what they keep from the start and what
stands in a file. -/
theorem has_of_resolves (hlib : Resolves (resolver files) s m) : s.Has files m := by
  obtain ⟨s', r, hs', hok⟩ := hlib
  have hok : (s'.resolve files r).1 = .ok m := hok
  obtain ⟨m', hkept, heq⟩ | ⟨-, ⟨cause, -, heq⟩ | ⟨m', hlook, heq⟩⟩ :=
    s'.resolve_cases files r
  · obtain rfl := Except.ok.inj (hok.symm.trans (congrArg Prod.fst heq))
    obtain ⟨x, hfind, rfl⟩ := Option.map_eq_some_iff.mp hkept
    exact has_of_reaches hs' x (List.mem_of_find?_eq_some hfind)
  · cases hok.symm.trans (congrArg Prod.fst heq)
  · obtain rfl := Except.ok.inj (hok.symm.trans (congrArg Prod.fst heq))
    exact .inr (exists_load_of_lookThrough hlook)

end SearchPaths

/-! ## §2  Histories -/

/-- Module files and the search paths through which they are looked for. -/
structure Depot where
  files : FileTree
  search : SearchPaths

/-- What happens to a depot: a file is written, as a text or not, or removed, a
search path is added, a name is resolved. -/
inductive DepotStep where
  | write (path : String) (text? : Option String)
  | remove (path : String)
  | addPath (path : String)
  | resolve (r : ModuleReference)

namespace DepotStep

def changeFiles (files : FileTree) : DepotStep → FileTree
  | .write path text? => (files.placeDeep path text?).2
  | .remove path => (files.remove? path).getD files
  | .addPath _ | .resolve _ => files

def addedPath? : DepotStep → Option String
  | .addPath path => some path
  | _ => none

end DepotStep

namespace Depot

def answer (d : Depot) (r : ModuleReference) : Resolution :=
  (d.search.resolve d.files r).1

def advance (d : Depot) : DepotStep → Depot
  | .addPath path => { d with search := d.search.add path }
  | .resolve r => { d with search := (d.search.resolve d.files r).2 }
  | step => { d with files := step.changeFiles d.files }

def run (d : Depot) (steps : List DepotStep) : Depot := steps.foldl advance d

/-- The references that are resolved on the way, with what they come to. -/
def outcomes : Depot → List DepotStep → List (ModuleReference × Resolution)
  | _, [] => []
  | d, .resolve r :: steps =>
      (r, d.answer r) :: (d.advance (.resolve r)).outcomes steps
  | d, step :: steps => (d.advance step).outcomes steps

/-! ## §3  What is kept -/

variable {d : Depot} {name : String} {m : Module StoredBody}

theorem files_run (d : Depot) (steps : List DepotStep) :
    (d.run steps).files = steps.foldl DepotStep.changeFiles d.files := by
  induction steps generalizing d with
  | nil => rfl
  | cons step steps ih =>
    have hfiles : (d.advance step).files = step.changeFiles d.files := by
      cases step <;> rfl
    exact (ih (d.advance step)).trans (by rw [hfiles, List.foldl_cons])

theorem paths_run (d : Depot) (steps : List DepotStep) :
    (d.run steps).search.paths =
      d.search.paths ++ steps.filterMap DepotStep.addedPath? := by
  induction steps generalizing d with
  | nil => exact (List.append_nil _).symm
  | cons step steps ih =>
    refine (ih (d.advance step)).trans ?_
    cases step <;> simp [advance, DepotStep.addedPath?,
      SearchPaths.add, List.filterMap_cons]

/-- What is kept stays, under its own name, and nothing is kept under a name but
what the name has come to. -/
theorem kept?_advance (d : Depot) (name : String) (step : DepotStep) :
    (d.advance step).search.kept? name = d.search.kept? name ∨
      ∃ r, step = .resolve r ∧ r.name = name ∧
        (d.advance step).search.kept? name = (d.answer r).toOption := by
  cases step with
  | write path text? => exact .inl rfl
  | remove path => exact .inl rfl
  | addPath path => exact .inl rfl
  | resolve r =>
    by_cases hname : r.name = name
    · exact .inr ⟨r, rfl, hname, hname ▸ SearchPaths.kept?_resolve_self⟩
    · exact .inl (SearchPaths.kept?_resolve_of_ne hname)

theorem answer_of_kept {r : ModuleReference}
    (hkept : d.search.kept? r.name = some m) : d.answer r = .ok m := by
  rw [answer, SearchPaths.resolve_of_kept hkept]

theorem kept?_run (steps : List DepotStep) (hkept : d.search.kept? name = some m) :
    (d.run steps).search.kept? name = some m := by
  induction steps generalizing d with
  | nil => exact hkept
  | cons step steps ih =>
    refine ih (d := d.advance step) ?_
    rcases d.kept?_advance name step with hsame | ⟨r, rfl, rfl, hanswer⟩
    · exact hsame.trans hkept
    · rw [hanswer, answer_of_kept hkept]
      rfl

theorem mem_outcomes_cons {d : Depot} {step : DepotStep} {steps : List DepotStep}
    {x : ModuleReference × Resolution} :
    x ∈ d.outcomes (step :: steps) ↔
      (∃ r, step = .resolve r ∧ x = (r, d.answer r)) ∨
      x ∈ (d.advance step).outcomes steps := by
  cases step <;> simp [outcomes]

theorem kept?_run_of_mem_outcomes {steps : List DepotStep} {r : ModuleReference}
    (hin : (r, .ok m) ∈ d.outcomes steps) :
    (d.run steps).search.kept? r.name = some m := by
  induction steps generalizing d with
  | nil => cases hin
  | cons step steps ih =>
    rcases mem_outcomes_cons.mp hin with ⟨r', rfl, heq⟩ | hrest
    · obtain ⟨rfl, hanswer⟩ := Prod.mk.inj heq
      refine kept?_run (d := d.advance (.resolve r)) steps ?_
      exact SearchPaths.kept?_resolve_self.trans
        (congrArg Except.toOption hanswer.symm)
    · exact ih hrest

theorem not_kept_run {steps : List DepotStep} (hnone : d.search.kept? name = none)
    (hfailed : ∀ r m, r.name = name → (r, .ok m) ∉ d.outcomes steps) :
    (d.run steps).search.kept? name = none := by
  induction steps generalizing d with
  | nil => exact hnone
  | cons step steps ih =>
    refine ih (d := d.advance step) ?_ fun r m hname hin =>
      hfailed r m hname (mem_outcomes_cons.mpr (.inr hin))
    rcases d.kept?_advance name step with hsame | ⟨r, rfl, hname, hanswer⟩
    · exact hsame.trans hnone
    · rw [hanswer]
      cases hr : d.answer r with
      | error cause => rfl
      | ok m =>
          exact absurd (mem_outcomes_cons.mpr (.inl ⟨r, rfl, by rw [hr]⟩))
            (hfailed r m hname)

/-! ## §4  Resolving in a history -/

/-- In every history of a depot, a name that has been resolved comes to the same
module from then on; one that has not been is looked for in the files and
through the search paths as they are by then, where the first file counts, be it
a module, something else or nothing that can be read; and a resolution that
fails is not seen in any later one. -/
theorem resolution_stable (files : FileTree) (paths : List String)
    (steps : List DepotStep) (r : ModuleReference) :
    let start : Depot := ⟨files, .ofList paths⟩
    let d := start.run steps
    let now := steps.foldl DepotStep.changeFiles files
    let searched := paths ++ steps.filterMap DepotStep.addedPath?
    (∀ earlier m, earlier.name = r.name → (earlier, .ok m) ∈ start.outcomes steps →
      d.answer r = .ok m) ∧
    ((∀ earlier m, earlier.name = r.name → (earlier, .ok m) ∉ start.outcomes steps) →
      (∀ path, SearchPaths.FirstFile now r.name searched path →
        (∀ text, now.read path = .ok text →
          d.answer r = (Module.ofText text).mapError fun fault =>
            .load r.name (@ModuleError.invalid fault (now.unread now.nodes path))) ∧
        ∀ cause, now.read path = .error cause →
          d.answer r = .error (.load r.name (@ModuleError.inaccessible cause))) ∧
      ((∀ directory ∈ searched,
        now.isFile (SearchPaths.fileIn directory r.name) = false) →
        d.answer r = .error (.notFound r.name))) ∧
    ∀ cause, d.answer r = .error cause →
        ∀ later, (d.advance (.resolve r)).outcomes later = d.outcomes later := by
  intro start d now searched
  refine ⟨?_, ?_, ?_⟩
  · intro earlier m hname hin
    exact answer_of_kept (hname ▸ kept?_run_of_mem_outcomes hin)
  · intro hfailed
    have hnone : d.search.kept? r.name = none := not_kept_run rfl hfailed
    have hanswer : d.answer r = SearchPaths.lookThrough now r.name searched := by
      rw [answer, SearchPaths.resolve_of_not_kept hnone, files_run, paths_run]
      rfl
    constructor
    · intro path hfirst
      rw [hanswer, SearchPaths.lookThrough_of_firstFile hfirst]
      constructor
      · intro text hread
        rw [SearchPaths.load_of_read hread]
        cases Module.ofText text <;> rfl
      · intro cause hread
        rw [SearchPaths.load_of_unread hread]
        rfl
    · intro hnowhere
      rw [hanswer, SearchPaths.lookThrough_of_nowhere hnowhere]
  · intro cause herror later
    have hsame : d.advance (.resolve r) = d := by
      rw [advance, SearchPaths.resolve_of_error herror]
    rw [hsame]

/-- An empty directory to work in, where files are told apart by their path if
they cannot be read. -/
def labelledFiles : FileTree :=
  { FileTree.empty with unread := fun _ path => "at " ++ path }

/-- Two search paths, one of them from the root, with a file of a module in
either: the first has bytes that are no text, the second a module. -/
def bytesFirst : List DepotStep :=
  [.resolve ⟨"L", none⟩, .addPath "a", .addPath "/work/b", .write "a/L.json" none,
    .write "b/L.json" (some "\x7b\"name\":\"L\"\x7d")]

/-- What cannot be read hides the good file, and so does a text that is no
module; once it is gone the good one is found, and it stays when it is gone. -/
theorem resolution_stable_broken_file :
    let start : Depot := ⟨labelledFiles, .ofList []⟩
    let r : ModuleReference := ⟨"L", none⟩
    let lib : Module StoredBody := ⟨"L", none, [], []⟩
    let broken := bytesFirst ++ [.write "a/L.json" (some "broken")]
    let mended := broken ++ [.remove "a/L.json"]
    (start.run bytesFirst).answer r =
      .error (.load "L" (@ModuleError.inaccessible "at a/L.json")) ∧
    (start.run broken).answer r =
      .error (.load "L" (@ModuleError.invalid .malformed "at a/L.json")) ∧
    (start.run mended).answer r = .ok lib ∧
    (start.run (mended ++ [.resolve r, .remove "b/L.json"])).answer r = .ok lib ∧
    ((start.run broken).advance (.resolve r)).outcomes
      [.remove "a/L.json", .resolve r] =
      (start.run broken).outcomes [.remove "a/L.json", .resolve r] := by
  intro start r lib broken mended
  -- the only resolution up to here has failed, for want of search paths
  have hfailed (steps : List DepotStep)
      (hsteps : start.outcomes steps = [(r, .error (.notFound "L"))])
      (earlier : ModuleReference) (m : Module StoredBody)
      (_ : earlier.name = r.name) : (earlier, .ok m) ∉ start.outcomes steps := by
    rw [hsteps, List.mem_singleton]
    exact fun heq => nomatch (Prod.mk.inj heq).2
  have hbytes : (start.run bytesFirst).answer r =
      .error (.load "L" (@ModuleError.inaccessible "at a/L.json")) := by
    have hfirst := ((resolution_stable labelledFiles [] bytesFirst r).2.1
      (hfailed bytesFirst rfl)).1
    refine (hfirst "a/L.json" ⟨by decide +kernel, [], "a", ["/work/b"],
      rfl, by decide +kernel, ?_⟩).2 _ (by decide +kernel)
    exact fun _ hin => absurd hin List.not_mem_nil
  have hbroken : (start.run broken).answer r =
      .error (.load "L" (@ModuleError.invalid .malformed "at a/L.json")) := by
    have hfirst :=
      ((resolution_stable labelledFiles [] broken r).2.1 (hfailed broken rfl)).1
    refine ((hfirst "a/L.json" ⟨by decide +kernel, [], "a", ["/work/b"],
      rfl, by decide +kernel, ?_⟩).1 "broken" (by decide +kernel)).trans ?_
    · exact fun _ hin => absurd hin List.not_mem_nil
    · decide +kernel
  have hmended : (start.run mended).answer r = .ok lib := by
    have hfirst :=
      ((resolution_stable labelledFiles [] mended r).2.1 (hfailed mended rfl)).1
    refine ((hfirst "/work/b/L.json" ⟨by decide +kernel, ["a"], "/work/b", [],
      rfl, by decide +kernel, ?_⟩).1
      "\x7b\"name\":\"L\"\x7d" (by decide +kernel)).trans ?_
    · intro other hin
      obtain rfl := List.mem_singleton.mp hin
      decide +kernel
    · decide +kernel
  refine ⟨hbytes, hbroken, hmended, ?_,
    (resolution_stable labelledFiles [] broken r).2.2 _ hbroken _⟩
  refine (resolution_stable labelledFiles [] _ r).1 r lib rfl ?_
  have houtcomes : start.outcomes (mended ++ [.resolve r, .remove "b/L.json"]) =
      [(r, .error (.notFound "L")), (r, (start.run mended).answer r)] := rfl
  rw [houtcomes, hmended]
  exact List.mem_cons_of_mem _ List.mem_cons_self

end Depot

end Instrumentation
