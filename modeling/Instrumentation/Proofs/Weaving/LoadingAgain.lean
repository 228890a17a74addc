import Instrumentation.Proofs.Stored.Texts
import Instrumentation.Proofs.Weaving.AddedNesting

/-!
# Loading what a pass leaves

What a pass leaves of a module can be stored and loaded again, and comes back as
it was but for the names of its handles. That holds whatever the pass did,
methods that were skipped included: all that is new are the instructions of log
calls, and those refer to no others.

There is one thing in the way. A reader goes only so deep, and the types that
log calls name nest deeper in them than where they are declared. A module whose
text is read may so become one whose text is not. Five levels are enough to keep
clear of that, and less is not.

Sections: §1 log calls · §2 passes · §3 loading again · §4 types that nest too deep.
-/

namespace Instrumentation

open InstructionList Json

/-! ## §1  Log calls -/

def Instruction.OfLogCall (i : Instruction Handle) : Prop :=
  ∃ arguments slot, IsLogStep arguments slot i

theorem Instruction.OfLogCall.targets {i : Instruction Handle} (hi : i.OfLogCall) :
    i.targets = [] := by
  obtain ⟨arguments, slot, hstep⟩ := hi
  exact hstep.isPlain.targets

theorem Instruction.OfLogCall.reals {i : Instruction Handle} (hi : i.OfLogCall) :
    i.operand.reals = [] := by
  obtain ⟨arguments, slot, hstep⟩ := hi
  cases hstep <;> rfl

abbrev Body.Logs (b w : Body) : Prop :=
  b.Extends Instruction.OfLogCall (fun _ => True) w

theorem Body.mem_reals_toStored {b : Body} {x : Binary64} :
    x ∈ b.toStored.reals ↔
      ∃ h i, b.instructions.get? h = some i ∧ x ∈ i.operand.reals := by
  have hreals (i : Instruction Handle) :
      (i.map b.storedPosition).operand.reals = i.operand.reals := by
    obtain ⟨op, operand⟩ := i
    cases operand <;> rfl
  rw [StoredBody.reals, List.mem_flatMap]
  constructor
  · rintro ⟨_, hi, hx⟩
    obtain ⟨h, i, hget, rfl⟩ := mem_instructions_toStored.mp hi
    exact ⟨h, i, hget, hreals i ▸ hx⟩
  · rintro ⟨h, i, hget, hx⟩
    exact ⟨_, mem_instructions_toStored.mpr ⟨h, i, hget, rfl⟩, (hreals i).symm ▸ hx⟩

theorem Body.Logs.reals {b w : Body} (hw : b.Logs w) {x : Binary64}
    (hx : x ∈ w.toStored.reals) : x ∈ b.toStored.reals := by
  obtain ⟨h, i, hi, hx⟩ := mem_reals_toStored.mp hx
  rcases hw.new hi with hold | hnew
  · exact mem_reals_toStored.mpr ⟨h, i, hold, hx⟩
  · simp [hnew.reals] at hx

theorem Module.logs_pass {σ : Type} (resolve : ModuleReference → StateM σ Resolution)
    (s : Settings) (home : Module Body) (store : σ) :
    home.Agree Body.Logs ((home.pass resolve s).run store).1.1 := by
  refine extends_pass fun callable _ c _ p hplan step hstep =>
    ⟨fun i hi => ?_, fun _ _ => trivial⟩
  obtain ⟨b, hp⟩ := MethodDef.plan_eq_ok hplan
  exact ⟨_, _, hp.isLogStep step hstep i hi⟩

/-- Where all bodies can be stored and loaded again, a pass leaves only such
bodies. -/
theorem Module.sound_pass {σ : Type} {home : Module Body}
    (hhome : ∀ b ∈ home.bodies, b.Sound)
    (resolve : ModuleReference → StateM σ Resolution) (s : Settings) (store : σ) :
    ∀ w ∈ ((home.pass resolve s).run store).1.1.bodies, w.Sound := by
  intro w hw
  obtain ⟨b, hb, hlogs⟩ :=
    exists_of_mem_forall₂ (home.logs_pass resolve s store).bodies hw
  exact hlogs.sound (fun i hi => hi.targets) (hhome b hb)

/-! ## §2  Passes -/

section

variable {σ : Type} (resolve : ModuleReference → StateM σ Resolution) (s : Settings)
  (store : σ) {stored : Module StoredBody} {home : Module Body} {next next' : Nat}
  (hload : Module.ofStored next stored = .ok (home, next'))

include hload

/-- Each body that a pass leaves was loaded as one without its log calls. -/
theorem Module.exists_loaded_of_pass {w : Body}
    (hw : w ∈ ((home.pass resolve s).run store).1.1.bodies) :
    ∃ b ∈ stored.bodies, ∃ v, b.LoadsAs v ∧ v.Logs w := by
  obtain ⟨v, hv, hlogs⟩ :=
    exists_of_mem_forall₂ (home.logs_pass resolve s store).bodies hw
  obtain ⟨b, hb, hloaded⟩ := exists_of_mem_forall₂ (agree_of_ofStored hload).bodies hv
  exact ⟨b, hb, v, hloaded, hlogs⟩

theorem Module.sound_of_pass :
    ∀ w ∈ ((home.pass resolve s).run store).1.1.bodies, w.Sound :=
  sound_pass (sound_of_ofStored hload) resolve s store

/-- Log calls hold no reals. -/
theorem Module.reals_of_pass :
    ((home.pass resolve s).run store).1.1.toStored.reals ⊆ stored.reals := by
  intro x hx
  rw [reals, toStored, bodies_map, List.flatMap_map] at hx
  obtain ⟨w, hw, hx⟩ := List.mem_flatMap.mp hx
  obtain ⟨b, hb, v, hloaded, hlogs⟩ := exists_loaded_of_pass resolve s store hload hw
  refine List.mem_flatMap_of_mem hb ?_
  rw [← hloaded.toStored]
  exact hlogs.reals hx

/-- The text of what a pass leaves is read as that if it does not nest too deep. -/
theorem Module.ofText_of_pass (hreals : ∀ x ∈ stored.reals, RealReadsBack x) :
    let done := ((home.pass resolve s).run store).1.1.toStored
    Answers (ofText done.toText) done (done.toJson.nesting ≤ maxNesting) := by
  refine ofText_toText ?_ fun x hx =>
    hreals x (reals_of_pass resolve s store hload hx)
  rw [toStored, bodies_map, List.forall_mem_map]
  exact fun w hw => (sound_of_pass resolve s store hload w hw).fault?_toStored

end

/-! ## §3  Loading again -/

/-- What a pass leaves of a module that has been read can be loaded again. Its
text is read as what it is stored as, and is loaded as the module with new names
for its handles, if arrays and objects nest no deeper in it than a reader goes;
if they do, the text is malformed. They do not if the texts of the module and of
all that the resolver can come up with from its state stay five levels clear of
that. -/
theorem Module.loaded_again {σ : Type}
    (resolve : ModuleReference → StateM σ Resolution) (s : Settings) (store : σ)
    (text : String) (stored : Module StoredBody) (hread : ofText text = .ok stored)
    (hreals : ∀ x ∈ stored.reals, RealReadsBack x) :
    ∃ home next, ofStored 0 stored = .ok (home, next) ∧
      let done := ((home.pass resolve s).run store).1.1
      (done.toStored.toJson.nesting ≤ maxNesting →
        ofText done.toStored.toText = .ok done.toStored) ∧
      (maxNesting < done.toStored.toJson.nesting →
        ofText done.toStored.toText = .error .malformed) ∧
      (stored.toJson.nesting + 5 ≤ maxNesting →
        (∀ lib, Resolves resolve store lib → lib.toJson.nesting + 5 ≤ maxNesting) →
        done.toStored.toJson.nesting ≤ maxNesting) ∧
      ∃ again next, ofStored 0 done.toStored = .ok (again, next) ∧
        done.Agree Body.Alike again := by
  obtain ⟨⟨home, next⟩, hload⟩ := (exists_ofStored_iff 0).mpr (fault?_of_ofText hread)
  obtain ⟨hfits, hdeep⟩ := ofText_of_pass resolve s store hload hreals
  have hagain := exists_ofStored_toStored (sound_of_pass resolve s store hload) 0
  refine ⟨home, next, hload, hfits, fun hlt => hdeep (Nat.not_le.mpr hlt), ?_, hagain⟩
  intro hstored hresolve
  rw [maxNesting] at hstored hresolve ⊢
  have hhome : home.toStored.toJson.nesting ≤ 113 + 9 := by
    rw [toStored_of_ofStored hload]
    omega
  exact nesting_of_pass hhome fun lib hlib =>
    Nat.le_of_add_le_add_right (hresolve lib hlib)

/-! ## §4  Types that nest too deep -/

def loggingAbstractions : Module StoredBody :=
  { name := "Microsoft.Extensions.Logging.Abstractions", coreLibrary? := none,
    references := []
    types := [{
      space := "Microsoft.Extensions.Logging", name := "LoggerExtensions",
      isValueType := false
      genericParams := [], fields := []
      methods := [{
        name := "LogInformation", visibility := .publicAccess, isStatic := true,
        genericParams := []
        params := [⟨"logger", .reference ⟨"Microsoft.Extensions.Logging", "ILogger"⟩⟩,
          ⟨"message", .string⟩, ⟨"args", .objects⟩]
        returnType := .void, body? := none }] }] }

def abstractionsAtHand (r : ModuleReference) : StateM Unit Resolution :=
  pure ((ModuleTable.ofList [loggingAbstractions]).resolve r)

def TypeSig.jagged : Nat → TypeSig
  | 0 => .object
  | depth + 1 => .array (jagged depth)

def codeBody (code : List (Instruction Nat)) : StoredBody :=
  { maxStack := 8, initLocals := true, locals := #[], instructions := code,
    handlers := [] }

/-- A module with one method, of a type whose logger is one for such arrays. -/
def jaggedService (depth : Nat) (code : List (Instruction Nat)) : Module StoredBody :=
  { name := "App", coreLibrary? := none
    references := [⟨"Microsoft.Extensions.Logging.Abstractions", none⟩]
    types := [{
      space := "App", name := "Service", isValueType := false, genericParams := []
      fields := [⟨"logger",
        .generic ⟨"Microsoft.Extensions.Logging", "ILogger`1"⟩ false [.jagged depth],
        .privateAccess, false, true⟩]
      methods := [{
        name := "Run", visibility := .publicAccess, isStatic := false,
        genericParams := [], params := []
        returnType := .void, body? := some (codeBody code) }] }] }

theorem bodies_jaggedService (depth : Nat) (code : List (Instruction Nat)) :
    (jaggedService depth code).bodies = [codeBody code] := rfl

/-- How deep arrays and objects nest once a pass has been over a module. -/
def nestingAfterPass (stored : Module StoredBody) : Option Nat :=
  (Module.ofStored 0 stored).toOption.map fun loaded =>
    ((loaded.1.pass abstractionsAtHand {}).run ()).1.1.toStored.toJson.nesting

theorem nesting_of_nestingAfterPass {stored : Module StoredBody}
    {home : Module Body} {n next : Nat} (hnesting : nestingAfterPass stored = some n)
    (hload : Module.ofStored 0 stored = .ok (home, next)) :
    ((home.pass abstractionsAtHand {}).run ()).1.1.toStored.toJson.nesting = n := by
  rw [nestingAfterPass, hload] at hnesting
  exact Option.some.inj hnesting

/-- The module as it stands just fits, and it just fits when it has been passed
over. -/
theorem jaggedService_loaded_again :
    let stored := jaggedService 114
      [⟨.ldcR8, .float64 oneAndAHalf⟩, ⟨.pop, .none⟩, ⟨.ret, .none⟩]
    Module.ofText stored.toText = .ok stored ∧ stored.reals = [oneAndAHalf] ∧
    ∃ home next, Module.ofStored 0 stored = .ok (home, next) ∧
      let done := ((home.pass abstractionsAtHand {}).run ()).1.1
      Module.ofText done.toStored.toText = .ok done.toStored ∧
      ∃ again next, Module.ofStored 0 done.toStored = .ok (again, next) ∧
        done.Agree Body.Alike again := by
  intro stored
  have hreals : ∀ x ∈ stored.reals, RealReadsBack x := by
    intro x hx
    obtain rfl := List.mem_singleton.mp hx
    exact realReadsBack_oneAndAHalf
  have hread : Module.ofText stored.toText = .ok stored :=
    (Module.ofText_toText (by rw [bodies_jaggedService]; decide) hreals).1
      (by decide +kernel)
  have hnesting : nestingAfterPass stored = some 127 := by decide +kernel
  obtain ⟨home, next, hload, hfits, -, -, hagain⟩ :=
    Module.loaded_again abstractionsAtHand {} () _ stored hread hreals
  have hdone := nesting_of_nestingAfterPass hnesting hload
  exact ⟨hread, rfl, home, next, hload, hfits (Nat.le_of_eq hdone), hagain⟩

/-- With one more level the module is still read, and no longer once it has been
passed over. -/
theorem jaggedService_not_read_again :
    let stored := jaggedService 115 [⟨.ret, .none⟩]
    Module.ofText loggingAbstractions.toText = .ok loggingAbstractions ∧
    Module.ofText stored.toText = .ok stored ∧ stored.reals = [] ∧
    ∃ home next, Module.ofStored 0 stored = .ok (home, next) ∧
      Module.ofText ((home.pass abstractionsAtHand {}).run ()).1.1.toStored.toText =
        .error .malformed := by
  intro stored
  have hnone : loggingAbstractions.reals = [] := rfl
  have hlibrary :
      Module.ofText loggingAbstractions.toText = .ok loggingAbstractions :=
    (Module.ofText_toText (by decide) (by simp [hnone])).1 (by decide)
  have hbodies : ∀ s ∈ stored.bodies, s.fault? = none := by
    rw [bodies_jaggedService]
    decide
  have hreals : stored.reals = [] := rfl
  have hread : Module.ofText stored.toText = .ok stored :=
    (Module.ofText_toText hbodies (by simp [hreals])).1 (by decide +kernel)
  have hnesting : nestingAfterPass stored = some 128 := by decide +kernel
  obtain ⟨⟨home, next⟩, hload⟩ := (Module.exists_ofStored_iff 0).mpr hbodies
  refine ⟨hlibrary, hread, hreals, home, next, hload, ?_⟩
  have hdone := nesting_of_nestingAfterPass hnesting hload
  refine
    (Module.ofText_of_pass abstractionsAtHand {} () hload (by simp [hreals])).2 ?_
  rw [hdone]
  decide

end Instrumentation
