import Instrumentation.Proofs.Calls.FoundMethods
import Instrumentation.Proofs.Stored.Nesting
import Instrumentation.Proofs.Weaving.Extensions

/-!
# How much deeper a pass nests a module

Log calls name types that are declared elsewhere: that of the logger field,
those of parameters, and those in the signatures of the two methods that the
searches come up with. Inside an operand each of them stands deeper than in its
declaration, by five levels at most. So the text of a module after a pass nests
at most five levels deeper than the deepest of the texts that went into it.

Sections: §1 what the searches come up with · §2 log calls · §3 bodies · §4 modules.
-/

namespace Instrumentation

open InstructionList

/-! ## §1  What the searches come up with -/

section

variable {n : Nat} {lib : Module StoredBody} (hlib : lib.toJson.nesting ≤ n + 9)

include hlib

/-- The types in a signature nest as deep as they do where it is declared. -/
theorem Module.nesting_of_method {t : TypeDef StoredBody} (ht : t ∈ lib.types)
    {m : MethodDef StoredBody} (hm : m ∈ t.methods) :
    (∀ q ∈ m.params, q.paramType.toJson.nesting ≤ n + 2) ∧
      m.returnType.toJson.nesting ≤ n + 4 := by
  have htype := nesting_le_iff.mp hlib t ht
  have hmethod := (TypeDef.nesting_le_iff.mp htype).2 m hm
  obtain ⟨hparams, hreturn, -⟩ := MethodDef.nesting_le_iff.mp hmethod
  exact ⟨hparams, hreturn⟩

theorem Module.nesting_methodRef {t : TypeDef StoredBody} (ht : t ∈ lib.types)
    {m : MethodDef StoredBody} (hm : m ∈ t.methods) :
    (lib.methodRef t m).toJson.nesting ≤ n + 5 := by
  obtain ⟨hparams, hreturn⟩ := nesting_of_method hlib ht hm
  have hdeclaring := t.nesting_receiverType
  refine MethodRef.nesting_le_iff.mpr ⟨?_, ?_, hreturn, by simp [methodRef]⟩
  · exact Nat.le_trans hdeclaring (by omega)
  · refine List.forall_mem_map.mpr fun q hq => ?_
    exact Nat.le_trans (hparams q hq) (by omega)

theorem nesting_emptyFactory {t : TypeDef StoredBody} (ht : t ∈ lib.types)
    {emptyArray : MethodRef} (hok : emptyFactory? lib t = .ok emptyArray) :
    emptyArray.toJson.nesting ≤ n + 5 := by
  obtain ⟨m, hm, -, rfl⟩ := exists_method_of_emptyFactory? hok
  obtain ⟨hdeclaring, hparams, hreturn, -⟩ :=
    MethodRef.nesting_le_iff.mp (Module.nesting_methodRef hlib ht hm)
  refine MethodRef.nesting_le_iff.mpr ⟨hdeclaring, hparams, hreturn, ?_⟩
  simp [TypeSig.object, TypeSig.toJson]

end

section

variable {σ : Type} {resolve : ModuleReference → StateM σ Resolution}
  {s : Settings} {home : Module Body} {store : σ} {n : Nat}
  (hresolve : ∀ lib, Resolves resolve store lib → lib.toJson.nesting ≤ n + 9)

include hresolve

theorem Module.nesting_foundCallable {callable : MethodRef}
    (hfound : (home.foundCallable resolve s store).1 = some callable) :
    callable.toJson.nesting ≤ n + 5 := by
  have hok :
      ((searchCallable resolve s.loggingCallable home.references {}).run store).1.1 =
        .ok callable := by
    unfold foundCallable at hfound
    rcases hsearch :
      (searchCallable resolve s.loggingCallable home.references {}).run store
      with ⟨⟨answer, r⟩, store'⟩
    rw [hsearch] at hfound
    cases answer with
    | error e => cases hfound
    | ok found => exact congrArg Except.ok (Option.some.inj hfound)
  obtain ⟨lib, hlib, hcallable⟩ := exists_resolves_of_searchCallable .start hok
  obtain ⟨t, ht, -, -, m, hm, -, rfl⟩ := exists_method_of_callable? hcallable
  exact nesting_methodRef (hresolve lib hlib) ht hm

theorem Module.nesting_foundEmptyArray {emptyArray : MethodRef}
    (hfound : home.foundEmptyArray resolve s store = .ok emptyArray) :
    emptyArray.toJson.nesting ≤ n + 5 := by
  have hstore : Reaches resolve store (home.foundCallable resolve s store).2 :=
    Reaches.start.searchCallable s.loggingCallable home.references {}
  obtain ⟨lib, t, hlib, ht, hfactory⟩ :=
    exists_resolves_of_searchEmptyArray hstore hfound
  exact nesting_emptyFactory (hresolve lib hlib) (mem_of_type? ht) hfactory

end

/-! ## §2  Log calls -/

theorem TypeSig.nesting_pointee (t : TypeSig) :
    t.pointee.toJson.nesting ≤ t.toJson.nesting := by
  cases t with
  | byRef element => simp [pointee, toJson, Json.Value.nesting_tagged]
  | _ => exact Nat.le_refl _

section

variable {k : Nat} {logger : FieldRef} {callable emptyArray : MethodRef}

theorem nesting_asObject {t : TypeSig} (ht : t.toJson.nesting ≤ k) :
    ∀ i ∈ asObject t, i.operand.nesting ≤ k + 1 := by
  have hpointee : (Operand.type t.pointee : Operand Handle).nesting ≤ k + 1 :=
    Nat.succ_le_succ (Nat.le_trans t.nesting_pointee ht)
  intro i hi
  rcases List.mem_append.mp hi with hload | hconvert
  · split at hload
    · obtain rfl := List.mem_singleton.mp hload
      exact hpointee
    · simp at hload
  · split at hconvert
    · obtain rfl := List.mem_singleton.mp hconvert
      exact hpointee
    · obtain rfl := List.mem_singleton.mp hconvert
      exact Nat.succ_le_succ (Nat.zero_le k)

theorem nesting_packArgument {slot : UInt16} {q : ParamDef} {ordinal : Nat}
    (hq : q.paramType.toJson.nesting ≤ k) :
    ∀ i ∈ packArgument slot q ordinal, i.operand.nesting ≤ k + 1 := by
  have hone : 1 ≤ k + 1 := Nat.le_add_left 1 k
  simp only [packArgument, List.forall_mem_append, List.forall_mem_cons]
  exact ⟨⟨⟨hone, hone, hone, by simp⟩, nesting_asObject hq⟩, Nat.zero_le _, by simp⟩

section

variable (hlogger : logger.toJson.nesting ≤ k)
  (hcallable : callable.toJson.nesting ≤ k)

include hlogger hcallable

theorem nesting_entryCode {β : Type} {m : MethodDef β}
    (hparams : ∀ q ∈ m.params, q.paramType.toJson.nesting ≤ k) (slot : UInt16) :
    ∀ i ∈ entryCode m logger callable slot, i.operand.nesting ≤ k + 1 := by
  have hone : 1 ≤ k + 1 := Nat.le_add_left 1 k
  have hpacks : ∀ i ∈ m.params.zipIdx.flatMap (fun x => packArgument slot x.1 x.2),
      i.operand.nesting ≤ k + 1 := by
    intro i hi
    obtain ⟨⟨q, ordinal⟩, hq, hi⟩ := List.mem_flatMap.mp hi
    exact nesting_packArgument (hparams q (List.fst_mem_of_mem_zipIdx hq)) i hi
  simp only [entryCode, List.forall_mem_append, List.forall_mem_cons]
  exact ⟨⟨⟨hone, Nat.succ_le_succ hlogger, hone, hone, hone, hone, by simp⟩, hpacks⟩,
    hone, Nat.succ_le_succ hcallable, by simp⟩

theorem nesting_exitCall (hempty : emptyArray.toJson.nesting ≤ k) (message : String) :
    ∀ i ∈ (exitCall logger callable emptyArray message).instructions,
      i.operand.nesting ≤ k + 1 := by
  have hone : 1 ≤ k + 1 := Nat.le_add_left 1 k
  simp only [exitCall, List.forall_mem_cons]
  exact ⟨hone, Nat.succ_le_succ hlogger, hone, Nat.succ_le_succ hempty,
    Nat.succ_le_succ hcallable, by simp⟩

/-- Of all that a plan brings only the types of the logger, of parameters and of
the methods called nest. -/
theorem Plan.Suits.consists {p : Plan} {m : MethodDef Body} {b : Body}
    {exit : ExitLogging} (hp : p.Suits m b logger callable exit)
    (hparams : ∀ q ∈ m.params, q.paramType.toJson.nesting ≤ k)
    (hempty : ∀ emptyArray message, exit = .enabled emptyArray message →
      emptyArray.toJson.nesting ≤ k) :
    p.Consists (fun i => i.operand.nesting ≤ k + 1)
      (fun t => t.toJson.nesting ≤ 1) := by
  refine List.forall_mem_cons.mpr ⟨?_, fun step hstep => ?_⟩
  · rw [hp.entry]
    refine ⟨nesting_entryCode hlogger hcallable hparams _, fun t ht => ?_⟩
    obtain rfl := List.mem_singleton.mp ht
    exact Nat.le_refl 1
  · obtain ⟨-, emptyArray, message, hexit, hcall⟩ := hp.exit_of_mem hstep
    rw [hcall]
    exact ⟨nesting_exitCall hlogger hcallable (hempty emptyArray message hexit)
      message, by simp [exitCall]⟩

end

end

/-! ## §3  Bodies -/

/-- How deep a handler nests does not depend on what it names. -/
theorem ExceptionHandler.nesting_map {ρ : Type} (f g : ρ → Nat)
    (x : ExceptionHandler ρ) :
    ((x.map f).toJson .nat).nesting = ((x.map g).toJson .nat).nesting := by
  obtain ⟨kind, tryStart, tryEnd?, handlerStart, handlerEnd?⟩ := x
  cases kind <;> cases tryEnd? <;> cases handlerEnd? <;> rfl

/-- A body with what log calls bring nests as deep as they do or as it did
before. -/
theorem Body.Extends.nesting_le {b w : Body} {n : Nat}
    (hw : b.Extends (fun i => i.operand.nesting ≤ n)
      (fun t => t.toJson.nesting ≤ 1) w) (hb : b.toStored.toJson.nesting ≤ n + 3) :
    w.toStored.toJson.nesting ≤ n + 3 := by
  obtain ⟨hlocals, hinstructions, hhandlers⟩ := StoredBody.nesting_le_iff.mp hb
  refine StoredBody.nesting_le_iff.mpr ⟨?_, ?_, ?_⟩
  · intro t ht
    rcases hw.locals ht with hold | hnew
    · exact hlocals t hold
    · exact Nat.le_trans hnew (by omega)
  · intro i hi
    obtain ⟨h, j, hj, rfl⟩ := mem_instructions_toStored.mp hi
    rcases hw.new hj with hold | hnew
    · have hsame := hinstructions _ (mem_instructions_toStored.mpr ⟨h, j, hold, rfl⟩)
      simpa [Instruction.map] using hsame
    · simpa [Instruction.map] using hnew
  · intro x hx
    obtain ⟨y, hy, rfl⟩ := List.mem_map.mp hx
    rw [ExceptionHandler.nesting_map _ b.storedPosition]
    exact hhandlers _ (List.mem_map_of_mem (hw.handlers ▸ hy))

/-! ## §4  Modules -/

section

variable {σ : Type} {resolve : ModuleReference → StateM σ Resolution}
  {s : Settings} {store : σ} {n : Nat} {home : Module Body}
  (hhome : home.toStored.toJson.nesting ≤ n + 9)
  (hresolve : ∀ lib, Resolves resolve store lib → lib.toJson.nesting ≤ n + 9)

theorem TypeDef.mem_of_loggerField? {β : Type} (t : TypeDef β)
    {pattern : LoggerPattern} {field : FieldDef}
    (hfield : t.loggerField? pattern = some field) : field ∈ t.fields := by
  unfold loggerField? at hfield
  split at hfield
  · cases hfield
  · exact List.mem_of_find?_eq_some hfield

theorem Settings.emptyArray_of_logCalls {callable emptyArray : MethodRef}
    {found : Except EmptyArrayError MethodRef} {message : String}
    (hexit : (s.logCalls callable found).exit = .enabled emptyArray message) :
    found = .ok emptyArray := by
  unfold logCalls at hexit
  split at hexit
  · cases found with
    | ok e => exact congrArg Except.ok (ExitLogging.enabled.inj hexit).1
    | error e => cases hexit
  · cases hexit

include hhome

/-- The types that a candidate declares nest as deep as the module allows. -/
theorem Module.nesting_of_candidate {pattern : LoggerPattern} {c : Candidate}
    (hc : c ∈ home.candidates pattern) :
    c.logger.toJson.nesting ≤ n + 5 ∧
      ∀ q ∈ c.method.params, q.paramType.toJson.nesting ≤ n + 5 := by
  obtain ⟨t, ht, hc⟩ := List.mem_flatMap.mp hc
  obtain ⟨field, hfield, m, hm, -, rfl⟩ := TypeDef.mem_candidates.mp hc
  have htype := nesting_le_iff.mp hhome (t.map Body.toStored) (List.mem_map_of_mem ht)
  obtain ⟨hfields, hmethods⟩ := TypeDef.nesting_le_iff.mp htype
  obtain ⟨hparams, -, -⟩ := MethodDef.nesting_le_iff.mp
    (hmethods (m.map Body.toStored) (List.mem_map_of_mem hm))
  have hdeclaring := t.nesting_receiverType
  constructor
  · exact FieldRef.nesting_le_iff.mpr ⟨Nat.le_trans hdeclaring (by omega),
      hfields field (t.mem_of_loggerField? hfield)⟩
  · exact fun q hq => Nat.le_trans (hparams q hq) (by omega)

include hresolve

theorem Module.extends_pass_nesting :
    home.Agree (Body.Extends (fun i => i.operand.nesting ≤ n + 6)
      (fun t => t.toJson.nesting ≤ 1)) ((home.pass resolve s).run store).1.1 := by
  refine extends_pass fun callable hfound c hc p hplan => ?_
  obtain ⟨hlogger, hparams⟩ := nesting_of_candidate hhome hc
  obtain ⟨b, hp⟩ := MethodDef.plan_eq_ok hplan
  refine hp.consists hlogger (nesting_foundCallable hresolve hfound) hparams ?_
  intro emptyArray message hexit
  exact nesting_foundEmptyArray hresolve (Settings.emptyArray_of_logCalls hexit)

/-- The text of a module after a pass nests at most five levels deeper than
before, or than the text of a module that the pass has come across. -/
theorem Module.nesting_of_pass :
    ((home.pass resolve s).run store).1.1.toStored.toJson.nesting ≤ n + 14 := by
  have hextends : home.Agree _ ((home.pass resolve s).run store).1.1 :=
    extends_pass_nesting hhome hresolve
  generalize ((home.pass resolve s).run store).1.1 = done at hextends
  have hbefore := nesting_le_iff.mp hhome
  refine nesting_le_iff.mpr (List.forall_mem_map.mpr fun t ht => ?_)
  obtain ⟨t₀, ht₀, htypes⟩ := exists_of_mem_forall₂ hextends.types ht
  obtain ⟨hfields, hmethods⟩ :=
    TypeDef.nesting_le_iff.mp (hbefore _ (List.mem_map_of_mem ht₀))
  refine TypeDef.nesting_le_iff.mpr ⟨?_, List.forall_mem_map.mpr fun m hm => ?_⟩
  · intro f hf
    have hsame : t.fields = t₀.fields :=
      congrArg (fun u : TypeDef Unit => u.fields) htypes.rest
    exact Nat.le_trans (hfields f (hsame ▸ hf)) (by omega)
  · obtain ⟨m₀, hm₀, hmethod⟩ := exists_of_mem_forall₂ htypes.methods hm
    obtain ⟨hparams, hreturn, hbody⟩ :=
      MethodDef.nesting_le_iff.mp (hmethods _ (List.mem_map_of_mem hm₀))
    have hsame : m.params = m₀.params :=
      congrArg (fun u : MethodDef Unit => u.params) hmethod.rest
    have hreturns : m.returnType = m₀.returnType :=
      congrArg (fun u : MethodDef Unit => u.returnType) hmethod.rest
    refine MethodDef.nesting_le_iff.mpr ⟨?_, ?_, ?_⟩
    · intro q hq
      exact Nat.le_trans (hparams q (hsame ▸ hq)) (by omega)
    · exact Nat.le_trans (hreturns ▸ hreturn) (by omega)
    · intro sw hsw
      obtain ⟨w, hw, rfl⟩ := Option.map_eq_some_iff.mp hsw
      obtain ⟨b, hb, hwoven⟩ := hmethod.exists_body hw
      have hold : b.toStored.toJson.nesting ≤ n + 4 :=
        hbody b.toStored (Option.map_eq_some_iff.mpr ⟨b, hb, rfl⟩)
      exact hwoven.nesting_le (Nat.le_trans hold (by omega))

end

end Instrumentation
