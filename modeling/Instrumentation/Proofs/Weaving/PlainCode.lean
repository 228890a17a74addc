import Instrumentation.Plan
import Instrumentation.Proofs.Flow.Run

/-!
# Plain code

Log calls are made of instructions that name no other instruction and always go
on to the one after them. The stack depth after such code is a function of the
depth before it, and deeper by as much as it started deeper. A log call leaves
the depth as it was, provided that the logging method takes three values and
gives none and that the factory of empty arrays gives one.

Sections: §1 plain instructions · §2 depths · §3 walks · §4 what log calls are
made of · §5 balance.
-/

namespace Instrumentation

/-! ## §1  Plain instructions -/

/-- An instruction that can only be followed by the next one. -/
structure Instruction.IsPlain {ρ : Type} (i : Instruction ρ) : Prop where
  falls : i.op.isTerminator = false
  targets : i.targets = []
  shape : i.op.shape = i.operand.shape

/-- A plain instruction has one effect, wherever it stands and whatever its
method returns. -/
theorem Instruction.IsPlain.effect {ρ : Type} {i : Instruction ρ} (hi : i.IsPlain) :
    ∃ e, ∀ returnsValue position, i.effect returnsValue position = .ok e := by
  obtain ⟨op, operand⟩ := i
  obtain ⟨hfalls, -, hshape⟩ := hi
  cases op
  case ret => simp [Opcode.isTerminator] at hfalls
  case call | callvirt | newobj =>
    all_goals
      cases operand <;> simp [Opcode.shape, Operand.shape] at hshape
      exact ⟨_, fun _ _ => rfl⟩
  all_goals exact ⟨_, fun _ _ => rfl⟩

/-! ## §2  Depths -/

/-- The stack depth after code that runs from end to end, none if the stack runs
out. -/
def depthAfter : Nat → List (Instruction Handle) → Option Nat
  | depth, [] => some depth
  | depth, i :: code =>
    match i.effect false 0 with
    | .ok e =>
        if e.pops ≤ depth then depthAfter (depth - e.pops + e.pushes) code else none
    | .error _ => none

theorem depthAfter_cons_eq_some {d r : Nat} {i : Instruction Handle}
    {code : List (Instruction Handle)} :
    depthAfter d (i :: code) = some r ↔
      ∃ e, i.effect false 0 = .ok e ∧ e.pops ≤ d ∧
        depthAfter (d - e.pops + e.pushes) code = some r := by
  rw [depthAfter]
  cases i.effect false 0 with
  | error x => simp
  | ok e => simp

theorem depthAfter_append (d : Nat) (xs ys : List (Instruction Handle)) :
    depthAfter d (xs ++ ys) = (depthAfter d xs).bind fun r => depthAfter r ys := by
  induction xs generalizing d with
  | nil => rfl
  | cons i xs ih =>
      rw [List.cons_append, depthAfter, depthAfter]
      cases i.effect false 0 with
      | error x => rfl
      | ok e =>
          by_cases hpops : e.pops ≤ d
          · simp only [if_pos hpops, ih]
          · simp only [if_neg hpops, Option.bind_none]

/-- What lies below does not matter to code that does without it. -/
theorem depthAfter_add {code : List (Instruction Handle)} {d r : Nat} (k : Nat)
    (h : depthAfter d code = some r) : depthAfter (d + k) code = some (r + k) := by
  induction code generalizing d with
  | nil =>
      obtain rfl : d = r := by simpa [depthAfter] using h
      rfl
  | cons i code ih =>
      obtain ⟨e, he, hpops, hrest⟩ := depthAfter_cons_eq_some.mp h
      refine depthAfter_cons_eq_some.mpr ⟨e, he, by omega, ?_⟩
      rw [show d + k - e.pops + e.pushes = d - e.pops + e.pushes + k by omega]
      exact ih hrest

/-- The depth before the code can be told from the depth after it. -/
theorem depthAfter_injective {code : List (Instruction Handle)} {d d' r : Nat}
    (h : depthAfter d code = some r) (h' : depthAfter d' code = some r) : d = d' := by
  rcases Nat.le_total d d' with hle | hle
  · obtain ⟨k, rfl⟩ := Nat.exists_eq_add_of_le hle
    have hsum := h'.symm.trans (depthAfter_add k h)
    simp only [Option.some.injEq] at hsum
    omega
  · obtain ⟨k, rfl⟩ := Nat.exists_eq_add_of_le hle
    have hsum := h.symm.trans (depthAfter_add k h')
    simp only [Option.some.injEq] at hsum
    omega

def Instruction.HasEffect {ρ : Type} (i : Instruction ρ) : Prop :=
  ∃ e, i.effect false 0 = .ok e

theorem Instruction.IsPlain.hasEffect {ρ : Type} {i : Instruction ρ}
    (hi : i.IsPlain) : i.HasEffect := by
  obtain ⟨e, he⟩ := hi.effect
  exact ⟨e, he false 0⟩

/-- The need of code can be told if all its stack effects can. -/
theorem Insertion.exists_peakFrom {code : List (Instruction Handle)}
    (hcode : ∀ i ∈ code, i.HasEffect) (position depth peak : Nat) :
    ∃ n, peakFrom position depth peak code = .ok n := by
  induction code generalizing position depth peak with
  | nil => exact ⟨peak, rfl⟩
  | cons i code ih =>
      obtain ⟨⟨e, he⟩, hrest⟩ := List.forall_mem_cons.mp hcode
      rw [peakFrom, Instruction.effect_position position he]
      exact ih hrest _ _ _

/-- The need of an insertion of plain instructions can be told. -/
theorem Insertion.exists_peak {s : Insertion}
    (hplain : ∀ i ∈ s.instructions, i.IsPlain) : ∃ n, s.peak = .ok n :=
  exists_peakFrom (fun i hi => (hplain i hi).hasEffect) 0 0 0

/-! ## §3  Walks -/

section

variable {b : Body} {returnsValue : Bool} {s t t' : FlowState}
  {i : Instruction Handle}

/-- From a plain instruction control goes on to the next one, at the depth that
the effect tells. -/
theorem Instruction.IsPlain.step_iff (hplain : i.IsPlain)
    (hget : b.instructions.get? s.handle = some i) :
    b.Step returnsValue s t ↔
      b.Performs returnsValue s i t.depth ∧
        b.instructions.next? s.handle = some t.handle := by
  constructor
  · intro hstep
    cases hstep with
    | next hi hfall hnext =>
        obtain rfl := Option.some.inj (hget.symm.trans hi.1)
        exact ⟨hi, hnext⟩
    | jump hi hfollows hne hmem =>
        obtain rfl := Option.some.inj (hget.symm.trans hi.1)
        simp [hplain.targets] at hmem
    | leave hi hop hmem =>
        obtain rfl := Option.some.inj (hget.symm.trans hi.1)
        simp [hplain.targets] at hmem
  · rintro ⟨hi, hnext⟩
    exact .next hi hplain.falls hnext

theorem Instruction.IsPlain.step_unique (hplain : i.IsPlain)
    (hget : b.instructions.get? s.handle = some i) (hstep : b.Step returnsValue s t)
    (hstep' : b.Step returnsValue s t') : t = t' := by
  obtain ⟨hi, hnext⟩ := (hplain.step_iff hget).mp hstep
  obtain ⟨hi', hnext'⟩ := (hplain.step_iff hget).mp hstep'
  obtain ⟨h, d⟩ := t
  obtain ⟨h', d'⟩ := t'
  obtain rfl : h = h' := Option.some.inj (hnext.symm.trans hnext')
  obtain rfl : d = d' := (hi.unique hi').2
  rfl

theorem Instruction.IsPlain.performs (returnsValue : Bool) (hplain : i.IsPlain)
    (hget : b.instructions.get? s.handle = some i) {code : List (Instruction Handle)}
    {r : Nat} (hdepth : depthAfter s.depth (i :: code) = some r) :
    ∃ d, b.Performs returnsValue s i d ∧ depthAfter d code = some r := by
  obtain ⟨e, he⟩ := hplain.effect
  obtain ⟨e', he', hpops, hrest⟩ := depthAfter_cons_eq_some.mp hdepth
  obtain rfl : e = e' := Except.ok.inj ((he false 0).symm.trans he')
  exact ⟨_, ⟨hget, e, he _ _, hpops, rfl⟩, hrest⟩

/-- Control walks through plain code that stands in a body, up to what comes
after it. -/
theorem exists_walk (returnsValue : Bool)
    {code : List (Handle × Instruction Handle)} {depth : Nat}
    (hcode : ∀ e ∈ code, b.instructions.get? e.1 = some e.2 ∧ e.2.IsPlain)
    (hplace : code.map (·.1) ++ [t.handle] <:+: b.instructions.handles)
    (hdepth : depthAfter depth (code.map (·.2)) = some t.depth) :
    ∃ walk, walk.map FlowState.handle = code.map (·.1) ∧
      (walk ++ [t]).IsChain (b.Step returnsValue) ∧
      ∀ s ∈ (walk ++ [t]).head?, s.depth = depth := by
  -- by induction on the code: one step leads to the walk through the rest of it
  induction code generalizing depth with
  | nil =>
      obtain rfl : depth = t.depth := by simpa [depthAfter] using hdepth
      exact ⟨[], rfl, .singleton _, by simp⟩
  | cons e code ih =>
      obtain ⟨⟨hget, hplain⟩, hrest⟩ := List.forall_mem_cons.mp hcode
      have hdepth' : depthAfter depth (e.2 :: code.map (·.2)) = some t.depth := hdepth
      obtain ⟨d, hi, hlater⟩ :=
        hplain.performs (s := ⟨e.1, depth⟩) returnsValue hget hdepth'
      have htail : code.map (·.1) ++ [t.handle] <:+: b.instructions.handles :=
        (List.suffix_cons e.1 _).isInfix.trans hplace
      obtain ⟨walk, hhandles, hchain, hhead⟩ := ih hrest htail hlater
      refine ⟨⟨e.1, depth⟩ :: walk, by simp [hhandles], ?_, by simp⟩
      rw [List.cons_append, List.isChain_cons]
      refine ⟨?_, hchain⟩
      intro y hy
      have hmap : walk.map FlowState.handle ++ [t.handle] =
          (walk ++ [t]).map FlowState.handle := by
        simp
      have hsecond : (code.map (·.1) ++ [t.handle]).head? = some y.handle := by
        rw [← hhandles, hmap, List.head?_map, hy, Option.map_some]
      obtain ⟨more, hmore⟩ := List.head?_eq_some_iff.mp hsecond
      have hpair : [e.1, y.handle] <:+: b.instructions.handles := by
        refine List.IsInfix.trans ?_ hplace
        rw [List.map_cons, List.cons_append, hmore]
        exact ⟨[], more, rfl⟩
      exact (hplain.step_iff hget).mpr
        ⟨hhead y hy ▸ hi, InstructionList.next?_eq_some_iff.mpr hpair⟩

end

/-! ## §4  What log calls are made of -/

inductive IsLogStep (arguments : Nat) (slot : UInt16) : Instruction Handle → Prop
  | ldarg {n : Nat} : n ≤ arguments →
      IsLogStep arguments slot (.ldarg (UInt16.ofNat n))
  | ldloc : IsLogStep arguments slot (.ldloc slot)
  | stloc : IsLogStep arguments slot (.stloc slot)
  | ldfld (field : FieldRef) : IsLogStep arguments slot (.ldfld field)
  | ldstr (text : String) : IsLogStep arguments slot (.ldstr text)
  | ldcI4 (value : Int32) : IsLogStep arguments slot (.ldcI4 value)
  | onType {op : Opcode} (type : TypeSig) : op.shape = .type →
      IsLogStep arguments slot (.onType op type)
  | stelemRef : IsLogStep arguments slot ⟨.stelemRef, .none⟩
  | call (method : MethodRef) : IsLogStep arguments slot (.call method)

theorem IsLogStep.isPlain {arguments : Nat} {slot : UInt16} {i : Instruction Handle}
    (hi : IsLogStep arguments slot i) : i.IsPlain := by
  cases hi with
  | @onType op type hop =>
      refine ⟨?_, rfl, hop⟩
      cases op <;> simp_all [Opcode.shape, Opcode.isTerminator, Instruction.onType]
  | _ => exact ⟨rfl, rfl, rfl⟩

theorem IsLogStep.slot_eq {arguments : Nat} {slot n : UInt16} {i : Instruction Handle}
    (hi : IsLogStep arguments slot i) (hn : i.operand = .local n) : n = slot := by
  cases hi with
  | ldloc | stloc => exact (Operand.local.inj hn).symm
  | _ => cases hn

theorem IsLogStep.arg_le {arguments : Nat} {slot n : UInt16} {i : Instruction Handle}
    (hi : IsLogStep arguments slot i) (hn : i.operand = .arg n) :
    n.toNat ≤ arguments := by
  cases hi with
  | @ldarg k hk =>
      obtain rfl : UInt16.ofNat k = n := Operand.arg.inj hn
      rw [UInt16.toNat_ofNat']
      exact (Nat.mod_le _ _).trans hk
  | _ => cases hn

theorem isLogStep_packArgument {slot : UInt16} {p : ParamDef} {n arguments : Nat}
    (hn : n < arguments) :
    ∀ i ∈ packArgument slot p n, IsLogStep arguments slot i := by
  have hobject : ∀ i ∈ asObject p.paramType, IsLogStep arguments slot i := by
    intro i hi
    rcases List.mem_append.mp hi with hload | hconvert
    · split at hload
      · obtain rfl := List.mem_singleton.mp hload
        exact .onType _ rfl
      · simp at hload
    · split at hconvert
      · obtain rfl := List.mem_singleton.mp hconvert
        exact .onType _ rfl
      · obtain rfl := List.mem_singleton.mp hconvert
        exact .onType _ rfl
  simp only [packArgument, List.forall_mem_append, List.forall_mem_cons]
  exact ⟨⟨⟨.ldloc, .ldcI4 _, .ldarg hn, by simp⟩, hobject⟩, .stelemRef, by simp⟩

theorem isLogStep_entryCode {β : Type} (m : MethodDef β) (logger : FieldRef)
    (callable : MethodRef) (slot : UInt16) :
    ∀ i ∈ entryCode m logger callable slot, IsLogStep m.params.length slot i := by
  have hpacks : ∀ i ∈ m.params.zipIdx.flatMap (fun x => packArgument slot x.1 x.2),
      IsLogStep m.params.length slot i := by
    intro i hi
    obtain ⟨⟨p, n⟩, hp, hi⟩ := List.mem_flatMap.mp hi
    have hlt : n < m.params.length :=
      (List.getElem?_eq_some_iff.mp (List.mk_mem_zipIdx_iff_getElem?.mp hp)).1
    exact isLogStep_packArgument hlt i hi
  simp only [entryCode, List.forall_mem_append, List.forall_mem_cons]
  exact ⟨⟨⟨.ldarg (Nat.zero_le _), .ldfld _, .ldstr _, .ldcI4 _, .onType _ rfl,
    .stloc, by simp⟩, hpacks⟩, .ldloc, .call _, by simp⟩

theorem isLogStep_exitCall (arguments : Nat) (slot : UInt16) (logger : FieldRef)
    (callable emptyArray : MethodRef) (message : String) :
    ∀ i ∈ (exitCall logger callable emptyArray message).instructions,
      IsLogStep arguments slot i := by
  simp only [exitCall, List.forall_mem_cons]
  exact ⟨.ldarg (Nat.zero_le _), .ldfld _, .ldstr _, .call _, .call _, by simp⟩

/-! ## §5  Balance -/

/-- The end of every conversion to an object: a value is boxed, a reference is
cast. -/
def toObject (t : TypeSig) : List (Instruction Handle) :=
  match t.storage with
  | .value => [.onType .box t]
  | .reference => [.onType .castclass .object]

theorem asObject_byRef (element : TypeSig) :
    asObject (.byRef element) = .onType .ldobj element :: toObject element := rfl

theorem asObject_of_not_byRef {t : TypeSig} (ht : ∀ element, t ≠ .byRef element) :
    asObject t = toObject t := by
  cases t with
  | byRef element => exact absurd rfl (ht element)
  | _ => rfl

theorem depthAfter_asObject (t : TypeSig) : depthAfter 1 (asObject t) = some 1 := by
  unfold asObject
  cases t <;> cases TypeSig.storage _ <;> rfl

/-- Packing an argument leaves the stack as it was. -/
theorem depthAfter_packArgument (d : Nat) (slot : UInt16) (p : ParamDef) (n : Nat) :
    depthAfter d (packArgument slot p n) = some d := by
  have hobject : depthAfter 3 (asObject p.paramType) = some 3 :=
    depthAfter_add 2 (depthAfter_asObject _)
  have hpack : depthAfter 0 (packArgument slot p n) = some 0 := by
    rw [packArgument, depthAfter_append, depthAfter_append]
    simp only [show depthAfter 0 [.ldloc slot, .ldcI4 (Int32.ofNat n),
      .ldarg (UInt16.ofNat (n + 1))] = some 3 from rfl, Option.bind_some, hobject]
    rfl
  simpa using depthAfter_add d hpack

/-- The entry call up to the call itself: the logger, the format text and the
array are on the stack. -/
def entryFront {β : Type} (m : MethodDef β) (logger : FieldRef) (slot : UInt16) :
    List (Instruction Handle) :=
  [.ldarg 0, .ldfld logger, .ldstr m.formatText, .ldcI4 (Int32.ofNat m.params.length),
    .onType .newarr .object, .stloc slot]
    ++ m.params.zipIdx.flatMap (fun x => packArgument slot x.1 x.2)
    ++ [.ldloc slot]

theorem entryCode_eq {β : Type} (m : MethodDef β) (logger : FieldRef)
    (callable : MethodRef) (slot : UInt16) :
    entryCode m logger callable slot =
      entryFront m logger slot ++ [.call callable] := by
  simp [entryCode, entryFront]

def MethodDef.ownLocals (m : MethodDef Body) : Array TypeSig :=
  match m.body? with
  | some b => b.locals
  | none => #[]

/-- The limits of an entry call, in the order in which they are checked. -/
theorem MethodDef.entryCall_eq (m : MethodDef Body) (logger : FieldRef)
    (callable : MethodRef) :
    m.entryCall logger callable =
      if 1 <<< 31 ≤ m.params.length then .error (.tooManyParameters m.name)
      else if UInt16.size ≤ m.ownLocals.size then .error (.tooManyLocals m.name)
      else if UInt16.size ≤ m.params.length then .error (.tooManyParameters m.name)
      else .ok ⟨entryCode m logger callable (UInt16.ofNat m.ownLocals.size),
        [.objects]⟩ := by
  rw [entryCall, ownLocals]
  cases m.body? <;> rfl

/-- An entry call counts arguments and slots in sixteen bits and works on the
slot after the method's own. -/
theorem MethodDef.eq_of_entryCall {m : MethodDef Body}
    {logger : FieldRef} {callable : MethodRef} {s : Insertion}
    (hok : m.entryCall logger callable = .ok s) :
    m.params.length < UInt16.size ∧ m.ownLocals.size < UInt16.size ∧
      s = ⟨entryCode m logger callable (UInt16.ofNat m.ownLocals.size),
        [.objects]⟩ := by
  rw [entryCall_eq] at hok
  split at hok
  · exact absurd hok nofun
  split at hok
  · exact absurd hok nofun
  split at hok
  · exact absurd hok nofun
  exact ⟨by omega, by omega, (Except.ok.inj hok).symm⟩

theorem depthAfter_entryFront {β : Type} (m : MethodDef β) (logger : FieldRef)
    (slot : UInt16) : depthAfter 0 (entryFront m logger slot) = some 3 := by
  have hpacks : ∀ params : List (ParamDef × Nat),
      depthAfter 2 (params.flatMap fun x => packArgument slot x.1 x.2) = some 2 := by
    intro params
    induction params with
    | nil => rfl
    | cons p params ih =>
        rw [List.flatMap_cons, depthAfter_append, depthAfter_packArgument]
        exact ih
  rw [entryFront, depthAfter_append, depthAfter_append]
  simp only [show depthAfter 0 [.ldarg 0, .ldfld logger, .ldstr m.formatText,
      .ldcI4 (Int32.ofNat m.params.length), .onType .newarr .object, .stloc slot] =
      some 2 from rfl, Option.bind_some, hpacks]
  rfl

/-- A logging method that fits what is pushed for it: it takes three values and
gives none. -/
structure MethodRef.TakesLog (callable : MethodRef) : Prop where
  takes : callable.takes = 3
  silent : callable.returnsValue = false

/-- A factory that gives a value for nothing. -/
structure MethodRef.GivesArray (emptyArray : MethodRef) : Prop where
  takes : emptyArray.takes = 0
  gives : emptyArray.returnsValue = true

theorem depthAfter_call_cons_eq_some {d r : Nat} {method : MethodRef}
    {code : List (Instruction Handle)} :
    depthAfter d (.call method :: code) = some r ↔
      method.takes ≤ d ∧
        depthAfter (d - method.takes + if method.returnsValue then 1 else 0) code =
          some r := by
  have heffect : (Instruction.call method : Instruction Handle).effect false 0 =
      .ok ⟨method.takes, if method.returnsValue then 1 else 0⟩ := rfl
  rw [depthAfter_cons_eq_some, heffect]
  simp

/-- The entry call is balanced for the logging methods that fit it, and for no
others. -/
theorem depthAfter_entryCode_iff {β : Type} (m : MethodDef β) (logger : FieldRef)
    (callable : MethodRef) (slot : UInt16) :
    depthAfter 0 (entryCode m logger callable slot) = some 0 ↔ callable.TakesLog := by
  rw [entryCode_eq, depthAfter_append, depthAfter_entryFront, Option.bind_some,
    depthAfter_call_cons_eq_some]
  simp only [depthAfter, Option.some.injEq]
  constructor
  · rintro ⟨htakes, hleft⟩
    cases hvalue : callable.returnsValue with
    | false => exact ⟨by simp [hvalue] at hleft; omega, hvalue⟩
    | true => simp [hvalue] at hleft
  · rintro ⟨htakes, hsilent⟩
    simp [htakes, hsilent]

/-- An exit call that finds its values has called a factory that gives one for
nothing. -/
theorem givesArray_of_depthAfter {logger : FieldRef} {callable emptyArray : MethodRef}
    {message : String} {d : Nat} (hcallable : callable.TakesLog)
    (hdepth : depthAfter 0
      (exitCall logger callable emptyArray message).instructions = some d) :
    emptyArray.GivesArray := by
  have hfront : depthAfter 0 [.ldarg 0, .ldfld logger, .ldstr message] = some 2 := rfl
  have hcode : (exitCall logger callable emptyArray message).instructions =
      [.ldarg 0, .ldfld logger, .ldstr message] ++
        [.call emptyArray, .call callable] := rfl
  rw [hcode, depthAfter_append, hfront, Option.bind_some,
    depthAfter_call_cons_eq_some, depthAfter_call_cons_eq_some,
    hcallable.takes] at hdepth
  obtain ⟨-, hpops, -⟩ := hdepth
  cases hvalue : emptyArray.returnsValue with
  | false => simp [hvalue] at hpops; omega
  | true =>
      simp only [hvalue, if_true] at hpops
      exact ⟨by omega, hvalue⟩

theorem depthAfter_exitCall (logger : FieldRef) {callable emptyArray : MethodRef}
    (message : String) (hcallable : callable.TakesLog)
    (hempty : emptyArray.GivesArray) :
    depthAfter 0 (exitCall logger callable emptyArray message).instructions =
      some 0 := by
  simp [exitCall, depthAfter, Instruction.effect, Instruction.call, Instruction.ldarg,
    Instruction.ldfld, Instruction.ldstr, Opcode.effect, hcallable.takes,
    hcallable.silent, hempty.takes, hempty.gives]

end Instrumentation
