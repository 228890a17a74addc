import Instrumentation.FileTree
import Instrumentation.Pass
import Instrumentation.SettingsFile

/-!
# Module files

Modules and settings as files, the directories in which referenced modules are
looked for, and a pass from one module file to another.

A module of the name `N` is the file `N.json` in the first of the search paths
that has such a file. A module that was loaded once is kept, whatever becomes of
its file; a failure is not.

Sections: §1 files · §2 search paths · §3 a pass over files.
-/

namespace Instrumentation

/-! ## §1  Files -/

def Module.load (files : FileTree) (path : String) :
    Except ModuleError (Module StoredBody) :=
  match files.read path with
  | .error cause => .error (@ModuleError.inaccessible cause)
  | .ok text =>
      (Module.ofText text).mapError fun fault =>
        @ModuleError.invalid fault (files.unread files.nodes path)

def Module.save (m : Module StoredBody) (files : FileTree) (path : String) :
    Except ModuleError FileTree :=
  (files.write path m.toText).mapError fun cause => @ModuleError.inaccessible cause

def Settings.load (files : FileTree) (path : String) :
    Except SettingsError Settings :=
  match files.read? path with
  | none => .error .inaccessible
  | some text => Settings.ofText text

/-! ## §2  Search paths -/

structure SearchPaths where
  paths : List String
  /-- The modules loaded so far, by the name they were looked for under. -/
  loaded : List (String × Module StoredBody)

namespace SearchPaths

def ofList (paths : List String) : SearchPaths := ⟨paths, []⟩

def add (s : SearchPaths) (path : String) : SearchPaths :=
  { s with paths := s.paths ++ [path] }

def locate? (s : SearchPaths) (files : FileTree) (name : String) : Option String :=
  (s.paths.map fun directory =>
    FileTree.join directory (name ++ ".json")).find? files.isFile

/-- Resolves a reference, keeping what is loaded. -/
def resolve (s : SearchPaths) (files : FileTree) (r : ModuleReference) :
    Resolution × SearchPaths :=
  match s.loaded.find? (fun m => m.1 == r.name) with
  | some (_, m) => (.ok m, s)
  | none =>
    match s.locate? files r.name with
    | none => (.error (.notFound r.name), s)
    | some path =>
      match Module.load files path with
      | .error e => (.error (.load r.name e), s)
      | .ok m => (.ok m, { s with loaded := (r.name, m) :: s.loaded })

def resolver (files : FileTree) : ModuleReference → StateM SearchPaths Resolution :=
  fun r s => s.resolve files r

end SearchPaths

/-! ## §3  A pass over files -/

def passFile (settings : Settings) (input output : String) (files : FileTree)
    (paths : SearchPaths) : Except ModuleError (Report × FileTree) × SearchPaths :=
  match Module.load files input with
  | .error e => (.error e, paths)
  | .ok stored =>
    match Module.ofStored 0 stored with
    | .error e =>
      (.error (@ModuleError.invalid (StoredBody.textFault e)
        (files.unread files.nodes input)), paths)
    | .ok (home, _) =>
      let ((done, report), paths) :=
        (home.pass (SearchPaths.resolver files) settings).run paths
      (((done.toStored).save files output).map fun files => (report, files), paths)

end Instrumentation
