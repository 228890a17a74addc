import Instrumentation.ModuleFile
import Instrumentation.Proofs.Weaving.LoadingAgain
import Instrumentation.Proofs.Weaving.RenamedPasses

/-!
# Passes with storing and loading in between

A module in memory goes through passes, each with settings and a resolver of its
own, and may be stored and loaded again between any two of them. Loading gives
its instructions new handles and passes give handles out, so two histories of
one module may soon agree in no handle at all. What is stored in the end, and
what is reported on the way, goes by the passes alone.

A module that has been loaded has bodies that can be stored and loaded again,
and no step takes that from it. That is the invariant on which every history
runs to its end, and by which no reference ever leads nowhere.

Sections: §1 modules under other names · §2 histories · §3 what is kept · §4
histories with the same passes.
-/

namespace Instrumentation

open InstructionList Json

/-! ## §1  Modules under other names -/

theorem Body.SameButNames.trans {b c d : Body} (h : b.SameButNames c)
    (h' : c.SameButNames d) : b.SameButNames d := by
  obtain ⟨hb, f, hf⟩ := h
  obtain ⟨-, g, hg⟩ := h'
  exact ⟨hb, g ∘ f, hf.trans hg⟩

namespace Module

variable {home again : Module Body}

theorem Agree.toStored (h : home.Agree Body.SameButNames again) :
    again.toStored = home.toStored := by
  refine Agree.map_eq (agree_map_left_iff.mpr (h.mono ?_))
  rintro b c ⟨hb, f, hf⟩
  exact hf.toStored hb

/-- A module that is stored and loaded again differs in the names of its handles
only. -/
theorem agree_of_ofStored_toStored (hhome : ∀ b ∈ home.bodies, b.IsLinked)
    {next next' : Nat} (hload : ofStored next home.toStored = .ok (again, next')) :
    home.Agree Body.SameButNames again := by
  refine ((agree_map_left_iff.mp (agree_of_ofStored hload)).mono ?_).and_left hhome
  rintro b c ⟨identity, hc⟩
  exact Body.exists_renaming_of_ofStored hc

/-- A module whose bodies name their own instructions only is loaded again if
lists can hold them. -/
theorem exists_ofStored_toStored_iff (hhome : ∀ b ∈ home.bodies, b.IsLinked)
    (next : Nat) :
    (∃ r, ofStored next home.toStored = .ok r) ↔
      ∀ b ∈ home.bodies, b.instructions.size ≤ capacity := by
  rw [exists_ofStored_iff, Module.toStored, bodies_map, List.forall_mem_map]
  refine forall₂_congr fun b hb => ?_
  rw [← Body.exists_ofStored_iff 0, (hhome b hb).exists_ofStored_iff]

end Module

/-! ## §2  Histories -/

section

variable {σ : Type}

/-- What is done to a module: a pass over it, or storing it and loading it again
into lists numbered from `next` on. -/
inductive ModuleStep (σ : Type) where
  | pass (resolve : ModuleReference → StateM σ Resolution) (s : Settings)
  | reload (next : Nat)

def ModuleStep.isPass : ModuleStep σ → Bool
  | .pass .. => true
  | .reload _ => false

/-- How far a module has come: what it has become, what its resolvers have
stored, and what the passes reported, the last one last. -/
structure Stage (σ : Type) where
  home : Module Body
  store : σ
  reports : List Report

namespace Stage

def start (home : Module Body) (store : σ) : Stage σ := ⟨home, store, []⟩

def advance (x : Stage σ) : ModuleStep σ → Except BodyError (Stage σ)
  | .pass resolve s =>
    let ((done, report), store) := (x.home.pass resolve s).run x.store
    .ok ⟨done, store, x.reports ++ [report]⟩
  | .reload next => do
    let (again, _) ← Module.ofStored next x.home.toStored
    return { x with home := again }

def run (x : Stage σ) : List (ModuleStep σ) → Except BodyError (Stage σ)
  | [] => .ok x
  | step :: steps => do
    let y ← x.advance step
    run y steps

/-! ## §3  What is kept -/

def Sound (x : Stage σ) : Prop := ∀ b ∈ x.home.bodies, b.Sound

theorem Sound.isLinked {x : Stage σ} (hx : x.Sound) :
    ∀ b ∈ x.home.bodies, b.IsLinked :=
  fun b hb => (hx b hb).linked

/-- A step succeeds where every body is sound, and leaves every body sound. -/
theorem Sound.advance {x : Stage σ} (hx : x.Sound) (step : ModuleStep σ) :
    ∃ y, x.advance step = .ok y ∧ y.Sound := by
  cases step with
  | pass resolve s => exact ⟨_, rfl, Module.sound_pass hx resolve s x.store⟩
  | reload next =>
    obtain ⟨again, next', hload, -⟩ := Module.exists_ofStored_toStored hx next
    exact ⟨{ x with home := again }, by rw [Stage.advance, hload]; rfl,
      Module.sound_of_ofStored hload⟩

theorem Sound.run {x : Stage σ} (hx : x.Sound) (steps : List (ModuleStep σ)) :
    ∃ y, x.run steps = .ok y ∧ y.Sound := by
  induction steps generalizing x with
  | nil => exact ⟨x, rfl, hx⟩
  | cons step steps ih =>
    obtain ⟨y, hstep, hy⟩ := hx.advance step
    obtain ⟨z, hrun, hz⟩ := ih hy
    exact ⟨z, by rw [Stage.run, hstep]; exact hrun, hz⟩

end Stage

/-- Of a module that has been read no reference ever leads nowhere, whatever
passes it goes through and however often it is stored and loaded on the way. It
never fails to be loaded, and verification never refuses it for a target or a
mark of a handler that is none of the body's instructions. -/
theorem Module.never_dangles (text : String) (stored : Module StoredBody)
    (hread : ofText text = .ok stored) (first : Nat) :
    ∃ home next, ofStored first stored = .ok (home, next) ∧
      ∀ (store : σ) (steps : List (ModuleStep σ)), ∃ x,
        (Stage.start home store).run steps = .ok x ∧
        (∀ b ∈ x.home.bodies, b.IsLinked) ∧
        (∀ e, x.home.verify = .error e → ¬ e.Dangles) ∧
        ∀ b ∈ x.home.bodies, ∀ identity, ∃ c,
          Body.ofStored identity b.toStored = .ok c := by
  obtain ⟨⟨home, next⟩, hload⟩ :=
    (exists_ofStored_iff first).mpr (fault?_of_ofText hread)
  refine ⟨home, next, hload, fun store steps => ?_⟩
  have hstart : (Stage.start home store).Sound := sound_of_ofStored hload
  obtain ⟨x, hrun, hx⟩ := hstart.run steps
  refine ⟨x, hrun, hx.isLinked, findsLinked_verify ?_, ?_⟩
  · exact fun t ht m hm b hb =>
      hx.isLinked b (List.mem_flatMap_of_mem ht (TypeDef.mem_bodies.mpr ⟨m, hm, hb⟩))
  · exact fun b hb identity => (Body.exists_ofStored_iff identity).mpr
      (hx b hb).fault?_toStored

def guardedLoop : StoredBody :=
  { maxStack := 1, initLocals := true, locals := #[]
    instructions := [⟨.ldcI4, .int32 0⟩, ⟨.switch, .switch [0, 2]⟩,
      ⟨.leave, .target 4⟩, ⟨.endfinally, .none⟩, ⟨.ret, .none⟩]
    handlers := [⟨.finallyBlock, 0, some 3, 3, some 4⟩] }

def guardedService : Module StoredBody :=
  (jaggedService 0 []).map fun _ => guardedLoop

def ModuleStep.atHand : ModuleStep Unit := .pass abstractionsAtHand {}

theorem Module.never_dangles_guardedService :
    ofText guardedService.toText = .ok guardedService ∧
    ∃ home next x, ofStored 0 guardedService = .ok (home, next) ∧
      (Stage.start home ()).run [.atHand, .reload 5, .atHand] = .ok x ∧
      x.reports.map (·.instrumented.length) = [1, 1] ∧
      (∀ b ∈ x.home.bodies, b.IsLinked) ∧
      ∀ e, x.home.verify = .error e → ¬ e.Dangles := by
  have hbodies : ∀ s ∈ guardedService.bodies, s.fault? = none := by
    intro s hs
    obtain rfl := List.mem_singleton.mp hs
    decide
  have hreals : guardedService.reals = [] := by decide +kernel
  have hread : ofText guardedService.toText = .ok guardedService :=
    (ofText_toText hbodies (by simp [hreals])).1 (by decide +kernel)
  obtain ⟨home, next, hload, hsteps⟩ := @never_dangles Unit _ guardedService hread 0
  obtain ⟨x, hrun, hlinked, hverify, -⟩ := hsteps () [.atHand, .reload 5, .atHand]
  have hreports : ((ofStored 0 guardedService).bind fun loaded =>
      (Stage.start loaded.1 ()).run [.atHand, .reload 5, .atHand]).toOption.map
        (·.reports.map (·.instrumented.length)) = some [1, 1] := by decide +kernel
  rw [hload] at hreports
  simp only [Except.bind, hrun] at hreports
  exact ⟨hread, home, next, x, hload, hrun, Option.some.inj hreports,
    hlinked, hverify⟩

/-! ## §4  Histories with the same passes -/

namespace Stage

/-- Two stages of modules that differ in the names of handles only. -/
structure Alike (x y : Stage σ) : Prop where
  home : x.home.Agree Body.SameButNames y.home
  store : y.store = x.store
  reports : y.reports = x.reports

theorem alike_refl {x : Stage σ} (hx : ∀ b ∈ x.home.bodies, b.IsLinked) :
    x.Alike x := by
  refine ⟨((x.home.agree_refl (S := Eq) fun _ => rfl).and_left hx).mono ?_, rfl, rfl⟩
  rintro b _ ⟨hb, rfl⟩
  exact ⟨hb, Body.exists_renaming_of_toStored hb rfl⟩

variable {x y : Stage σ}

/-- The same pass over both leaves them alike. -/
theorem Alike.pass (h : x.Alike y) (resolve : ModuleReference → StateM σ Resolution)
    (s : Settings) :
    ∃ x' y', x.advance (.pass resolve s) = .ok x' ∧
      y.advance (.pass resolve s) = .ok y' ∧ x'.Alike y' := by
  obtain ⟨hhome, hstore, hreports⟩ := h
  obtain ⟨hreport, hstore', hhome'⟩ := hhome.pass resolve s x.store
  refine ⟨_, _, rfl, rfl, ?_⟩
  rw [hstore]
  exact ⟨hhome', hstore', congrArg₂ (fun rs r => rs ++ [r]) hreports hreport⟩

/-- So does loading one of them again. -/
theorem Alike.reload (h : x.Alike y) (hy : y.Sound) {next : Nat} {y' : Stage σ}
    (hstep : y.advance (.reload next) = .ok y') : x.Alike y' := by
  obtain ⟨⟨again, next'⟩, hload, hrest⟩ := Except.bind_eq_ok hstep
  obtain rfl := Except.ok.inj hrest
  have hhome := Module.agree_of_ofStored_toStored hy.isLinked hload
  exact ⟨h.home.trans (S := Body.SameButNames) Body.SameButNames.trans hhome,
    h.store, h.reports⟩

/-- One history comes to the same as another with the same passes and nothing in
between. -/
theorem Alike.run (h : x.Alike y) (hy : y.Sound) (steps : List (ModuleStep σ)) :
    ∃ x' y', x.run (steps.filter ModuleStep.isPass) = .ok x' ∧ y.run steps = .ok y' ∧
      x'.Alike y' := by
  induction steps generalizing x y with
  | nil => exact ⟨x, y, rfl, rfl, h⟩
  | cons step steps ih =>
    obtain ⟨y₁, hstep, hy₁⟩ := hy.advance step
    cases step with
    | pass resolve s =>
      obtain ⟨x₁, y₂, hx₁, hy₂, h₁⟩ := h.pass resolve s
      obtain rfl := Except.ok.inj (hstep.symm.trans hy₂)
      obtain ⟨x', y', hx', hy', h'⟩ := ih h₁ hy₁
      refine ⟨x', y', ?_, by rw [Stage.run, hstep]; exact hy', h'⟩
      rw [List.filter_cons_of_pos rfl, Stage.run, hx₁]
      exact hx'
    | reload next =>
      obtain ⟨x', y', hx', hy', h'⟩ := ih (h.reload hy hstep) hy₁
      refine ⟨x', y', ?_, by rw [Stage.run, hstep]; exact hy', h'⟩
      rw [List.filter_cons_of_neg (by simp [ModuleStep.isPass])]
      exact hx'

end Stage

theorem Module.exists_ofText_of_load {files : FileTree} {path : String}
    {m : Module StoredBody} (hread : Module.load files path = .ok m) :
    ∃ text, ofText text = .ok m := by
  unfold Module.load at hread
  split at hread
  · cases hread
  · rename_i text _
    exact ⟨text, mapError_eq_ok_iff.mp hread⟩

/-- A pass from file to file does what a pass in memory does. -/
theorem passFile_eq {home : Module Body}
    (hlinked : ∀ b ∈ home.bodies, b.IsLinked) {files : FileTree} {input : String}
    (hread : Module.load files input = .ok home.toStored) (s : Settings)
    (output : String) (paths : SearchPaths) :
    passFile s input output files paths =
      let done := (home.pass (SearchPaths.resolver files) s).run paths
      ((done.1.1.toStored.save files output).map fun files =>
        (done.1.2, files), done.2) := by
  obtain ⟨text, htext⟩ := Module.exists_ofText_of_load hread
  obtain ⟨⟨again, next⟩, hload⟩ :=
    (Module.exists_ofStored_iff 0).mpr (Module.fault?_of_ofText htext)
  obtain ⟨hreport, hpaths, hdone⟩ :=
    (Module.agree_of_ofStored_toStored hlinked hload).pass
      (SearchPaths.resolver files) s paths
  simp only [passFile, hread, hload, ← hreport, ← hpaths, ← hdone.toStored]
  rfl

/-- To passes over a module it makes no difference whether it has been stored
and loaded again, which it can be if lists can hold its bodies. One pass reports
the same and leaves what is stored as the same module, and so does a history
with any number of reloads between its passes. A pass from file to file does
what a pass in memory does. -/
theorem Module.passes_alike_reloaded (home : Module Body)
    (hlinked : ∀ b ∈ home.bodies, b.IsLinked) (store : σ) :
    (∀ next, (∃ r, ofStored next home.toStored = .ok r) ↔
      ∀ b ∈ home.bodies, b.instructions.size ≤ capacity) ∧
    (∀ next again next', ofStored next home.toStored = .ok (again, next') →
      ∀ (resolve : ModuleReference → StateM σ Resolution) s,
        let done := (home.pass resolve s).run store
        let done' := (again.pass resolve s).run store
        done'.1.2 = done.1.2 ∧ done'.1.1.toStored = done.1.1.toStored ∧
          done'.2 = done.2) ∧
    ((∀ b ∈ home.bodies, b.instructions.size ≤ capacity) →
      ∀ steps : List (ModuleStep σ), ∃ x y,
        (Stage.start home store).run (steps.filter ModuleStep.isPass) = .ok x ∧
        (Stage.start home store).run steps = .ok y ∧
        y.reports = x.reports ∧ y.home.toStored = x.home.toStored ∧
        y.store = x.store) ∧
    (∀ files input, Module.load files input = .ok home.toStored → ∀ s output paths,
      passFile s input output files paths =
        let done := (home.pass (SearchPaths.resolver files) s).run paths
        ((done.1.1.toStored.save files output).map fun files =>
          (done.1.2, files), done.2)) := by
  refine ⟨exists_ofStored_toStored_iff hlinked, ?_, ?_, ?_⟩
  · intro next again next' hload resolve s
    obtain ⟨hreport, hstore, hdone⟩ :=
      (agree_of_ofStored_toStored hlinked hload).pass resolve s store
    exact ⟨hreport, hdone.toStored, hstore⟩
  · intro hsize steps
    have hstart : (Stage.start home store).Sound :=
      fun b hb => ⟨hlinked b hb, hsize b hb⟩
    obtain ⟨x, y, hx, hy, halike⟩ :=
      (Stage.alike_refl (x := .start home store) hlinked).run hstart steps
    exact ⟨x, y, hx, hy, halike.reports, halike.home.toStored, halike.store⟩
  · exact fun files input hread s output paths =>
      passFile_eq hlinked hread s output paths

def lateLoop : Body :=
  .ofInstructions ((ofList 1 [⟨.nop, .none⟩, ⟨.ret, .none⟩]).insertAt 1
    [⟨.ldnull, .none⟩, ⟨.brtrue, .target ⟨1, 0⟩⟩])

/-- In memory the handles differ from those that come of a reload, and what is
stored does not. -/
theorem Module.passes_alike_reloaded_lateLoop :
    let home := (jaggedService 0 []).map fun _ => lateLoop
    (∀ b ∈ home.bodies, b.IsLinked) ∧
    ∃ x y, (Stage.start home ()).run [.atHand, .atHand] = .ok x ∧
      (Stage.start home ()).run [.atHand, .reload 5, .atHand] = .ok y ∧
      x.reports.map (·.instrumented.length) = [1, 1] ∧ y.reports = x.reports ∧
      y.home.toStored = x.home.toStored ∧
      x.home.bodies.map (·.instructions.order.getLast?) = [some 1] ∧
      y.home.bodies.map (·.instructions.order.getLast?) = [some 11] := by
  intro home
  have hlinked : ∀ b ∈ home.bodies, b.IsLinked := by
    intro b hb
    obtain rfl := List.mem_singleton.mp hb
    exact Body.isLinked_iff_named.mpr (by decide)
  have hsize : ∀ b ∈ home.bodies, b.instructions.size ≤ capacity := by
    intro b hb
    obtain rfl := List.mem_singleton.mp hb
    decide
  obtain ⟨x, y, hx, hy, hreports, hstored, -⟩ :=
    (passes_alike_reloaded home hlinked ()).2.2.1 hsize [.atHand, .reload 5, .atHand]
  have hx : (Stage.start home ()).run [.atHand, .atHand] = .ok x := hx
  have hinMemory :
      ((Stage.start home ()).run [.atHand, .atHand]).toOption.map (fun x =>
        (x.reports.map (·.instrumented.length),
          x.home.bodies.map (·.instructions.order.getLast?))) =
      some ([1, 1], [some 1]) := by decide +kernel
  have hreloaded :
      ((Stage.start home ()).run [.atHand, .reload 5, .atHand]).toOption.map
        (·.home.bodies.map (·.instructions.order.getLast?)) =
      some [some 11] := by decide +kernel
  rw [hx] at hinMemory
  rw [hy] at hreloaded
  obtain ⟨hinstrumented, hlast⟩ := Prod.mk.inj (Option.some.inj hinMemory)
  exact ⟨hlinked, x, y, hx, hy, hinstrumented, hreports, hstored, hlast,
    Option.some.inj hreloaded⟩

end

end Instrumentation
