import Instrumentation.Proofs.Weaving.ControlFlow

/-!
# The values that an entry call passes

A machine of its own runs the instructions of an entry call on values: it has
argument slots, local slots, an operand stack and a heap of object arrays. What
lies outside these, the fields of objects, the memory behind pointers and the
making of boxes, belongs to a runtime, of which nothing is assumed but that it
does not change while one call is made ready; each of its operations gives a
value or throws. The machine stops at a throw, and it stops at a fault of its
own where an instruction does not find what it needs.

The loop over the parameters keeps one array half full: the elements before the
current ordinal are there and the others are still null.

Sections: §1 the machine · §2 single instructions · §3 conversions · §4 packing
· §5 the entry call.
-/

namespace Instrumentation

namespace Machine

/-! ## §1  The machine -/

/-- A value in a slot, on the stack or in an array. An array is known by its
address; `other` is whatever else the runtime has. -/
inductive Value (α : Type) where
  | null
  | int32 (value : Int32)
  | string (value : String)
  | array (address : Nat)
  | other (datum : α)
deriving DecidableEq

structure Runtime (α ε : Type) where
  field : FieldRef → Value α → Except ε (Value α)
  load : TypeSig → Value α → Except ε (Value α)
  box : TypeSig → Value α → Except ε (Value α)
  cast : TypeSig → Value α → Except ε (Value α)

/-- The slots of a method, its operand stack with the top first, and the object
arrays made so far. -/
structure Frame (α : Type) where
  args : List (Value α)
  locals : List (Value α)
  stack : List (Value α)
  arrays : List (List (Value α))
deriving DecidableEq

inductive Fault where
  | operand
  | slot
  | element
  | meaning
deriving DecidableEq

inductive Halt (ε : Type) where
  | fault (cause : Fault)
  | exception (thrown : ε)
deriving DecidableEq

section

variable {α ε : Type}

def Frame.push (f : Frame α) (v : Value α) : Frame α :=
  { f with stack := v :: f.stack }

def slot (slots : List (Value α)) (n : UInt16) : Except (Halt ε) (Value α) :=
  match slots[n.toNat]? with
  | some v => .ok v
  | none => .error (.fault .slot)

def Frame.keep (f : Frame α) (n : UInt16) : Except (Halt ε) (Frame α) :=
  match f.stack with
  | v :: stack =>
    if n.toNat < f.locals.length then
      .ok { f with locals := f.locals.set n.toNat v, stack := stack }
    else .error (.fault .slot)
  | [] => .error (.fault .operand)

def Frame.convert (f : Frame α) (g : Value α → Except ε (Value α)) :
    Except (Halt ε) (Frame α) :=
  match f.stack with
  | v :: stack =>
      ((g v).mapError Halt.exception).map fun w => { f with stack := w :: stack }
  | [] => .error (.fault .operand)

/-- Makes an object array of the length on the stack, every element null. -/
def Frame.allocate (f : Frame α) : Except (Halt ε) (Frame α) :=
  match f.stack with
  | .int32 n :: stack =>
    if n < 0 then .error (.fault .operand)
    else .ok
      { f with
        stack := .array f.arrays.length :: stack
        arrays := f.arrays ++ [List.replicate n.toInt.toNat .null] }
  | _ => .error (.fault .operand)

/-- Puts the top value into the array under it, at the index between the two. -/
def Frame.store (f : Frame α) : Except (Halt ε) (Frame α) :=
  match f.stack with
  | v :: .int32 n :: .array a :: stack =>
    match f.arrays[a]? with
    | some elements =>
      if 0 ≤ n ∧ n.toInt.toNat < elements.length then
        .ok { f with
          stack := stack, arrays := f.arrays.set a (elements.set n.toInt.toNat v) }
      else .error (.fault .element)
    | none => .error (.fault .operand)
  | _ => .error (.fault .operand)

/-- One instruction. Arrays are arrays of objects, and no instruction beyond
those of a log call's arguments has a meaning. -/
def step (R : Runtime α ε) (f : Frame α) (i : Instruction Handle) :
    Except (Halt ε) (Frame α) :=
  match i.op, i.operand with
  | .ldarg, .arg n => (slot f.args n).map f.push
  | .ldloc, .local n => (slot f.locals n).map f.push
  | .stloc, .local n => f.keep n
  | .ldstr, .string s => .ok (f.push (.string s))
  | .ldcI4, .int32 n => .ok (f.push (.int32 n))
  | .ldfld, .field r => f.convert (R.field r)
  | .ldobj, .type t => f.convert (R.load t)
  | .box, .type t => f.convert (R.box t)
  | .castclass, .type t => f.convert (R.cast t)
  | .newarr, .type (.primitive .object) => f.allocate
  | .stelemRef, .none => f.store
  | _, _ => .error (.fault .meaning)

def run (R : Runtime α ε) (code : List (Instruction Handle)) (f : Frame α) :
    Except (Halt ε) (Frame α) :=
  code.foldlM (step R) f

variable {R : Runtime α ε} {f g : Frame α} {i : Instruction Handle}
  {code front back : List (Instruction Handle)}

theorem run_nil : run R [] f = .ok f := rfl

theorem run_cons : run R (i :: code) f = (step R f i).bind (run R code) := rfl

theorem run_append : run R (front ++ back) f = (run R front f).bind (run R back) :=
  List.foldlM_append

/-- An instruction that goes well is behind. -/
theorem run_cons_of_ok (hstep : step R f i = .ok g) :
    run R (i :: code) f = run R code g := by
  rw [run_cons, hstep, Except.bind]

theorem run_append_of_ok (hfront : run R front f = .ok g) :
    run R (front ++ back) f = run R back g := by
  rw [run_append, hfront, Except.bind]

/-! ## §2  Single instructions -/

theorem slot_eq_ok {slots : List (Value α)} {n : Nat} {v : Value α}
    (hn : n < UInt16.size) (hv : slots[n]? = some v) :
    (slot slots (UInt16.ofNat n) : Except (Halt ε) (Value α)) = .ok v := by
  rw [slot, UInt16.toNat_ofNat_of_lt' hn, hv]

theorem step_ldarg {n : Nat} {v : Value α} (hn : n < UInt16.size)
    (hv : f.args[n]? = some v) :
    step R f (.ldarg (UInt16.ofNat n)) = .ok (f.push v) := by
  change (slot f.args (UInt16.ofNat n)).map f.push = _
  rw [slot_eq_ok hn hv]
  rfl

theorem step_ldloc {n : Nat} {v : Value α} (hn : n < UInt16.size)
    (hv : f.locals[n]? = some v) :
    step R f (.ldloc (UInt16.ofNat n)) = .ok (f.push v) := by
  change (slot f.locals (UInt16.ofNat n)).map f.push = _
  rw [slot_eq_ok hn hv]
  rfl

theorem step_stloc {n : Nat} {v : Value α} (hn : n < UInt16.size)
    (hlt : n < f.locals.length) :
    step R (f.push v) (.stloc (UInt16.ofNat n)) =
      .ok { f with locals := f.locals.set n v } := by
  simp [step, Instruction.stloc, Frame.keep, Frame.push,
    UInt16.toNat_ofNat_of_lt' hn, hlt]

theorem step_newarr {n : Nat} (hn : n < 2 ^ 31) :
    step R (f.push (.int32 (Int32.ofNat n))) (.onType .newarr .object) =
      .ok { f.push (.array f.arrays.length) with
        arrays := f.arrays ++ [List.replicate n .null] } := by
  have hlength : (Int32.ofNat n).toInt = n := Int32.toInt_ofNat_of_lt hn
  have hnonneg : ¬ Int32.ofNat n < 0 := by
    rw [Int32.lt_iff_toInt_lt, hlength]
    exact Int.not_lt.mpr (Int.natCast_nonneg n)
  simp [step, Instruction.onType, Frame.allocate, Frame.push, hlength, hnonneg]

/-- A store goes to one element of one array. -/
theorem step_stelemRef {elements : List (Value α)} {n a : Nat}
    {v : Value α} (hn : n < 2 ^ 31) (ha : f.arrays[a]? = some elements)
    (hlt : n < elements.length) :
    step R (((f.push (.array a)).push (.int32 (Int32.ofNat n))).push v)
      ⟨.stelemRef, .none⟩ =
      .ok { f with arrays := f.arrays.set a (elements.set n v) } := by
  have hindex : (Int32.ofNat n).toInt = n := Int32.toInt_ofNat_of_lt hn
  have hnonneg : 0 ≤ Int32.ofNat n := by
    rw [Int32.le_iff_toInt_le, hindex]
    exact Int.natCast_nonneg n
  simp [step, Frame.store, Frame.push, ha, hindex, hnonneg, hlt]

/-! ## §3  Conversions -/

/-- What the runtime makes of a value of some type where an object is wanted: a
box of it, or a cast of it, and never both. -/
def Runtime.toObject (R : Runtime α ε) (t : TypeSig) (v : Value α) :
    Except ε (Value α) :=
  match t.storage with
  | .value => R.box t v
  | .reference => R.cast .object v

/-- What the runtime makes of an argument: a pointer is followed first. -/
def Runtime.asObject (R : Runtime α ε) : TypeSig → Value α → Except ε (Value α)
  | .byRef element, v => (R.load element v).bind (R.toObject element)
  | t, v => R.toObject t v

theorem Runtime.asObject_of_not_byRef {t : TypeSig}
    (ht : ∀ element, t ≠ .byRef element) : R.asObject t = R.toObject t := by
  funext v
  cases t with
  | byRef element => exact absurd rfl (ht element)
  | _ => rfl

theorem run_toObject (t : TypeSig) (v : Value α) :
    run R (toObject t) (f.push v) =
      ((R.toObject t v).mapError Halt.exception).map f.push := by
  rw [toObject, Runtime.toObject]
  cases t.storage with
  | value =>
      change (((R.box t v).mapError Halt.exception).map f.push).bind .ok = _
      cases R.box t v <;> rfl
  | reference =>
      change (((R.cast .object v).mapError Halt.exception).map f.push).bind .ok = _
      cases R.cast .object v <;> rfl

/-- The generated conversion does what the runtime makes of an argument. -/
theorem run_asObject (t : TypeSig) (v : Value α) :
    run R (asObject t) (f.push v) =
      ((R.asObject t v).mapError Halt.exception).map f.push := by
  by_cases hpointer : ∃ element, t = .byRef element
  · obtain ⟨element, rfl⟩ := hpointer
    rw [asObject_byRef, Runtime.asObject, run_cons]
    change (((R.load element v).mapError Halt.exception).map f.push).bind _ = _
    cases R.load element v with
    | error e => rfl
    | ok w => exact run_toObject element w
  · have hother : ∀ element, t ≠ .byRef element :=
      fun element ht => hpointer ⟨element, ht⟩
    rw [asObject_of_not_byRef hother,
      Runtime.asObject_of_not_byRef hother, run_toObject]

/-! ## §4  Packing -/

/-- The part of the machine that packing works on: the array that a slot holds,
with the elements before an ordinal filled and `count` more of them still null. -/
structure Filling (f : Frame α) (n : Nat) (arrays : List (List (Value α)))
    (done : List (Value α)) (count : Nat) : Prop where
  slot : f.locals[n]? = some (.array arrays.length)
  arrays : f.arrays = arrays ++ [done ++ List.replicate count .null]

/-- Packing one argument fills the next element, if the runtime does not throw. -/
theorem run_packArgument {n count : Nat} {arrays : List (List (Value α))}
    {done : List (Value α)} {p : ParamDef} {v : Value α}
    (hn : n < UInt16.size) (hdone : done.length + 1 < UInt16.size)
    (hfilling : Filling f n arrays done (count + 1))
    (hv : f.args[done.length + 1]? = some v) :
    run R (packArgument (UInt16.ofNat n) p done.length) f =
      ((R.asObject p.paramType v).mapError Halt.exception).map fun w =>
        { f with arrays := arrays ++ [done ++ w :: List.replicate count .null] } := by
  have hindex : done.length < 2 ^ 31 := by
    simp only [UInt16.size] at hdone
    omega
  have helements :
      f.arrays[arrays.length]? = some (done ++ List.replicate (count + 1) .null) := by
    rw [hfilling.arrays, List.getElem?_concat_length]
  have hlt : done.length <
      (done ++ List.replicate (count + 1) (Value.null : Value α)).length := by
    rw [List.length_append, List.length_replicate]
    omega
  have hload : run R [.ldloc (UInt16.ofNat n), .ldcI4 (Int32.ofNat done.length),
      .ldarg (UInt16.ofNat (done.length + 1))] f =
        .ok (((f.push (.array arrays.length)).push
          (.int32 (Int32.ofNat done.length))).push v) := by
    have hlast :
        step R ((f.push (.array arrays.length)).push
            (.int32 (Int32.ofNat done.length)))
          (.ldarg (UInt16.ofNat (done.length + 1))) = .ok _ :=
      step_ldarg hdone hv
    rw [run_cons_of_ok (step_ldloc hn hfilling.slot), run_cons_of_ok rfl,
      run_cons_of_ok hlast, run_nil]
  rw [packArgument, run_append, run_append_of_ok hload, run_asObject]
  cases R.asObject p.paramType v with
  | error e => rfl
  | ok w =>
      have hstore := step_stelemRef (R := R) (v := w) hindex helements hlt
      refine (run_cons_of_ok hstore).trans ?_
      rw [run_nil, hfilling.arrays]
      simp [Except.map, Except.mapError, List.replicate_succ]

/-- Packing the parameters from an ordinal on fills the rest of the array, up to
the first argument for which the runtime throws. -/
theorem run_packArguments {n : Nat} {arrays : List (List (Value α))}
    (hn : n < UInt16.size) :
    ∀ (params : List ParamDef) (f : Frame α) (done arguments : List (Value α)),
      done.length + params.length < UInt16.size → arguments.length = params.length →
      f.args.drop (done.length + 1) = arguments →
      Filling f n arrays done params.length →
      run R ((params.zipIdx done.length).flatMap fun x =>
        packArgument (UInt16.ofNat n) x.1 x.2) f =
        (((params.zip arguments).mapM fun x =>
          R.asObject x.1.paramType x.2).mapError Halt.exception).map fun elements =>
          { f with arrays := arrays ++ [done ++ elements] }
  | [], f, done, arguments, _, _, _, hfilling => by
      have harrays : f = { f with arrays := arrays ++ [done ++ []] } := by
        rw [show arrays ++ [done ++ []] = f.arrays from hfilling.arrays.symm]
      exact congrArg Except.ok harrays
  | p :: params, f, done, [], _, hlength, _, _ => nomatch hlength
  | p :: params, f, done, v :: arguments, hsize, hlength, hargs, hfilling => by
      rw [List.length_cons] at hsize hlength hfilling
      have hv : f.args[done.length + 1]? = some v := by
        rw [← List.head?_drop, hargs, List.head?_cons]
      have hfirst := run_packArgument (R := R) (p := p) hn (by omega) hfilling hv
      rw [List.zipIdx_cons, List.flatMap_cons, run_append, hfirst,
        List.zip_cons_cons, List.mapM_cons]
      cases hw : R.asObject p.paramType v with
      | error e => rfl
      | ok w =>
          have hnext := run_packArguments hn params
            { f with
              arrays := arrays ++ [done ++ w :: List.replicate params.length .null] }
            (done ++ [w]) arguments
            (by rw [List.length_append, List.length_singleton]; omega)
            (Nat.succ.inj hlength) ?_ ⟨hfilling.slot, by simp⟩
          · rw [List.length_append, List.length_singleton] at hnext
            change run R _ _ = _
            rw [hnext]
            cases List.mapM (fun x => R.asObject x.1.paramType x.2)
              (params.zip arguments) with
            | error e => rfl
            | ok elements =>
                simp [Except.map, Except.mapError, bind, Except.bind,
                  pure, Except.pure]
          · rw [List.length_append, List.length_singleton, ← List.drop_drop, hargs]
            rfl

/-! ## §5  The entry call -/

/-- The frame from which packing starts: the logger and the format text pushed,
and an array of nulls in a slot. -/
def Frame.allocated (f : Frame α) (log : Value α) (text : String)
    (n count : Nat) : Frame α where
  args := f.args
  locals := f.locals.set n (.array f.arrays.length)
  stack := .string text :: log :: f.stack
  arrays := f.arrays ++ [List.replicate count .null]

theorem filling_allocated {log : Value α} {text : String} {n count : Nat}
    (hslot : n < f.locals.length) :
    Filling (f.allocated log text n count) n f.arrays [] count :=
  ⟨by simp [Frame.allocated, hslot], rfl⟩

theorem run_allocate (log : Value α) (text : String) {n count : Nat}
    (hn : n < UInt16.size) (hcount : count < 2 ^ 31) (hslot : n < f.locals.length) :
    run R [.ldstr text, .ldcI4 (Int32.ofNat count), .onType .newarr .object,
      .stloc (UInt16.ofNat n)] (f.push log) = .ok (f.allocated log text n count) := by
  rw [run_cons_of_ok rfl, run_cons_of_ok rfl, run_cons_of_ok (step_newarr hcount)]
  exact run_cons_of_ok (step_stloc (f := { f with
    stack := .string text :: log :: f.stack
    arrays := f.arrays ++ [List.replicate count .null] }) hn hslot)

/-- Up to the call, the entry call pushes the logger, the format text and an
array of the arguments as objects, unless the runtime throws. -/
theorem run_entryFront {β : Type} {m : MethodDef β}
    (logger : FieldRef) {n : Nat} {receiver : Value α}
    {arguments : List (Value α)} (hcount : m.params.length < UInt16.size)
    (hn : n < UInt16.size) (hargs : f.args = receiver :: arguments)
    (hlength : arguments.length = m.params.length) (hslot : n < f.locals.length) :
    run R (entryFront m logger (UInt16.ofNat n)) f =
      Except.mapError Halt.exception (do
      let log ← R.field logger receiver
      let elements ← (m.params.zip arguments).mapM fun x =>
        R.asObject x.1.paramType x.2
      return {
        args := f.args
        locals := f.locals.set n (.array f.arrays.length)
        stack := .array f.arrays.length :: .string m.formatText :: log :: f.stack
        arrays := f.arrays ++ [elements] }) := by
  have hreceiver : step R f (.ldarg 0) = .ok (f.push receiver) :=
    step_ldarg (by decide) (by rw [hargs, List.getElem?_cons_zero])
  have hfield : step R (f.push receiver) (.ldfld logger) =
      ((R.field logger receiver).mapError Halt.exception).map f.push := rfl
  rw [entryFront, List.append_assoc, List.cons_append, run_cons_of_ok hreceiver,
    List.cons_append, run_cons, hfield]
  cases R.field logger receiver with
  | error e => rfl
  | ok log =>
      have hfew : m.params.length < 2 ^ 31 := by
        simp only [UInt16.size] at hcount
        omega
      have hallocate := run_allocate (R := R) log m.formatText hn hfew hslot
      have hfilling : Filling (f.allocated log m.formatText n m.params.length) n
          f.arrays [] m.params.length :=
        filling_allocated hslot
      have hpacks := run_packArguments (R := R) hn m.params _ [] arguments
        (by simpa using hcount) hlength
        (by simp [Frame.allocated, hargs]) hfilling
      rw [List.length_nil] at hpacks
      change run R (_ ++ _) (f.push log) = _
      rw [run_append_of_ok hallocate, run_append, hpacks]
      cases List.mapM (fun x => R.asObject x.1.paramType x.2)
          (m.params.zip arguments) with
      | error e => rfl
      | ok elements =>
          exact run_cons_of_ok (step_ldloc
            (f := { f.allocated log m.formatText n m.params.length with
              arrays := f.arrays ++ [elements] }) hn hfilling.slot)

/-- A loop that goes well has gone well for every element. -/
theorem forall₂_of_mapM {β γ : Type} {g : β → Except ε γ} :
    ∀ {xs : List β} {ys : List γ},
    xs.mapM g = .ok ys → List.Forall₂ (fun x y => g x = .ok y) xs ys
  | [], ys, hok => by
      obtain rfl : [] = ys := Except.ok.inj hok
      exact .nil
  | x :: xs, ys, hok => by
      rw [List.mapM_cons] at hok
      cases hx : g x with
      | error e => rw [hx] at hok; exact absurd hok nofun
      | ok y =>
          cases hxs : xs.mapM g with
          | error e => rw [hx, hxs] at hok; exact absurd hok nofun
          | ok rest =>
              rw [hx, hxs] at hok
              obtain rfl : y :: rest = ys := Except.ok.inj hok
              exact .cons hx (forall₂_of_mapM hxs)

end

end Machine

/-- What an entry call passes. Run on any arguments, on top of any stack and
with a slot left for it, it stops before its call only at what the runtime
throws, first for the logger and then for the arguments in order; otherwise the
call finds the logger's field, the format text and one new array of the
arguments as objects, above an untouched stack, and neither the arguments nor
the method's own slots have changed. -/
theorem MethodDef.entryCall_passes {α ε : Type} (R : Machine.Runtime α ε)
    (m : MethodDef Body) (logger : FieldRef) (callable : MethodRef) (s : Insertion)
    (f : Machine.Frame α)
    (receiver : Machine.Value α) (arguments : List (Machine.Value α))
    (hok : m.entryCall logger callable = .ok s)
    (hargs : f.args = receiver :: arguments)
    (hcount : arguments.length = m.params.length)
    (hslot : m.ownLocals.size < f.locals.length) :
    ∃ front, s.instructions = front ++ [.call callable] ∧
      Machine.run R front f = Except.mapError Machine.Halt.exception (do
        let log ← R.field logger receiver
        let elements ← (m.params.zip arguments).mapM fun x =>
          R.asObject x.1.paramType x.2
        return {
          args := f.args
          locals := f.locals.set m.ownLocals.size (.array f.arrays.length)
          stack := .array f.arrays.length :: .string m.formatText :: log :: f.stack
          arrays := f.arrays ++ [elements] }) ∧
      ∀ g, Machine.run R front f = .ok g → g.args = f.args ∧
        (∀ n < m.ownLocals.size, g.locals[n]? = f.locals[n]?) ∧
        ∃ log elements, R.field logger receiver = .ok log ∧
          elements.length = m.params.length ∧
          List.Forall₂ (fun x v => R.asObject x.1.paramType x.2 = .ok v)
            (m.params.zip arguments) elements ∧
          g.stack = .array f.arrays.length :: .string m.formatText :: log :: f.stack ∧
          g.arrays = f.arrays ++ [elements] := by
  obtain ⟨hparams, hlocals, rfl⟩ := eq_of_entryCall hok
  have hrun :=
    Machine.run_entryFront (R := R) (m := m) logger hparams hlocals hargs hcount hslot
  refine ⟨entryFront m logger (UInt16.ofNat m.ownLocals.size), entryCode_eq .., hrun,
    fun g hg => ?_⟩
  rw [hrun] at hg
  cases hlog : R.field logger receiver with
  | error e => rw [hlog] at hg; exact absurd hg nofun
  | ok log =>
      cases hmap : (m.params.zip arguments).mapM fun x =>
        R.asObject x.1.paramType x.2 with
      | error e => rw [hlog, hmap] at hg; exact absurd hg nofun
      | ok elements =>
          rw [hlog, hmap] at hg
          obtain rfl := Except.ok.inj hg
          have helements := Machine.forall₂_of_mapM hmap
          refine ⟨rfl, fun n hn => ?_, log, elements, rfl, ?_, helements, rfl, rfl⟩
          · exact List.getElem?_set_ne (Nat.ne_of_gt hn)
          · rw [← helements.length_eq, List.length_zip, hcount, Nat.min_self]

inductive Machine.Datum where
  | object (name : Nat)
  | pointer (name : Nat)
  | box (type : TypeSig) (content : Int32)
deriving DecidableEq

/-- A world with one service, whose logger is object 1, and one variable to
point at, which is 40. All else is null, and null has neither fields nor
anything behind it. -/
def Machine.smallWorld : Machine.Runtime Machine.Datum String :=
  { field := fun _ v =>
      if v = .other (.object 0) then .ok (.other (.object 1))
      else .error "null reference"
    load := fun _ v =>
      if v = .other (.pointer 0) then .ok (.int32 40) else .error "null reference"
    box := fun t v => match v with
      | .int32 n => .ok (.other (.box t n))
      | v => .ok v
    cast := fun _ v => .ok v }

def countingMethod : MethodDef Body :=
  { name := "Count", visibility := .publicAccess, isStatic := false,
    genericParams := []
    params := [⟨"step", .primitive .int32⟩, ⟨"total", .byRef (.primitive .int32)⟩,
      ⟨"label", .string⟩]
    returnType := .void
    body? := some { Body.waiting with locals := #[.primitive .int64] } }

def Machine.counting : Machine.Frame Machine.Datum :=
  { args := [.other (.object 0), .int32 2, .other (.pointer 0), .string "pages"]
    locals := [.int32 7, .null]
    stack := [.int32 9]
    arrays := [[.null]] }

theorem entryCall_passes_counting :
    ∃ front,
      entryCode countingMethod sampleLogger logInformation 1 =
        front ++ [.call logInformation] ∧
      Machine.run Machine.smallWorld front Machine.counting = .ok
        { args := Machine.counting.args
          locals := [.int32 7, .array 1]
          stack :=
            [.array 1, .string countingMethod.formatText, .other (.object 1), .int32 9]
          arrays := [[.null],
            [.other (.box (.primitive .int32) 2),
              .other (.box (.primitive .int32) 40), .string "pages"]] } := by
  obtain ⟨front, hcode, hrun, -⟩ := countingMethod.entryCall_passes
    Machine.smallWorld sampleLogger logInformation
    ⟨entryCode countingMethod sampleLogger logInformation 1, [.objects]⟩
    Machine.counting (.other (.object 0))
    [.int32 2, .other (.pointer 0), .string "pages"] rfl rfl rfl (by decide)
  exact ⟨front, hcode, hrun.trans rfl⟩

end Instrumentation
