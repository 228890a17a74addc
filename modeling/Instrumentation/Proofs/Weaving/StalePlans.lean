import Instrumentation.Proofs.Weaving.Extensions

/-!
# Plans that were made before other changes

Between planning and applying a method may change: slots are added, other
insertions are made, other plans are applied, and some of this may fail. A plan
keeps what was true of the method when it was made. Its anchors are handles,
which last; but the slot of the entry call is a number, the one that the next
slot would have had by then, and applying the plan adds whatever slot is next by
now.

Slots are never taken away. So the number of the plan is that of the slot which
is added with the entry call exactly if nothing has added a slot in between, and
otherwise that of the first slot which something else has added.

Sections: §1 changes · §2 slots are kept · §3 the slot of the entry call.
-/

namespace Instrumentation

/-! ## §1  Changes -/

/-- A change to a method, which may fail: a further slot, an insertion, a plan. -/
inductive MethodEdit where
  | pushLocal (type : TypeSig)
  | insert (anchor : Handle) (s : Insertion)
  | apply (p : Plan)

namespace MethodDef

def edit (m : MethodDef Body) : MethodEdit → MethodDef Body
  | .pushLocal type =>
    match m.body? with
    | none => m
    | some b =>
      match b.pushLocal type with
      | .ok (_, w) => m.withBody (some w)
      | .error _ => m
  | .insert anchor s => (m.insertBefore anchor s).2
  | .apply p => (m.apply p).2

def editAll (m : MethodDef Body) (edits : List MethodEdit) : MethodDef Body :=
  edits.foldl edit m

end MethodDef

/-! ## §2  Slots are kept -/

/-- One body has the slots of another, under the same numbers, and perhaps more
after them. -/
def Body.KeepsSlots (b w : Body) : Prop := ∃ added, w.locals = b.locals ++ added

namespace Body.KeepsSlots

variable {b w v : Body}

theorem refl (b : Body) : b.KeepsSlots b := ⟨#[], Array.append_empty.symm⟩

theorem trans (hw : b.KeepsSlots w) (hv : w.KeepsSlots v) : b.KeepsSlots v := by
  obtain ⟨added, hadded⟩ := hw
  obtain ⟨more, hmore⟩ := hv
  exact ⟨added ++ more, by rw [hmore, hadded, Array.append_assoc]⟩

theorem of_pushLocal {type : TypeSig} {slot : UInt16}
    (hpush : b.pushLocal type = .ok (slot, w)) : b.KeepsSlots w := by
  unfold pushLocal at hpush
  split at hpush
  · obtain ⟨-, rfl⟩ := Prod.mk.inj (Except.ok.inj hpush)
    exact ⟨#[type], Array.push_eq_append⟩
  · cases hpush

end Body.KeepsSlots

namespace MethodDef

variable {m m' : MethodDef Body}

theorem keepsSlots_insertBefore (m : MethodDef Body) (anchor : Handle)
    (s : Insertion) : m.Agree Body.KeepsSlots (m.insertBefore anchor s).2 := by
  apply agree_insertBefore Body.KeepsSlots.refl
  intro b p maxStack _
  exact ⟨s.newLocals.toArray, rfl⟩

theorem keepsSlots_edit (m : MethodDef Body) (e : MethodEdit) :
    m.Agree Body.KeepsSlots (m.edit e) := by
  cases e with
  | pushLocal type =>
    have hsame := m.agree_refl Body.KeepsSlots.refl
    rw [edit]
    split
    · exact hsame
    rename_i b hbody
    split
    · rename_i slot w hpush
      exact ⟨rfl, hbody ▸ .some (.of_pushLocal hpush)⟩
    · exact hsame
  | insert anchor s => exact m.keepsSlots_insertBefore anchor s
  | apply p =>
    exact agree_apply Body.KeepsSlots.refl Body.KeepsSlots.trans fun step _ m =>
      m.keepsSlots_insertBefore step.1 step.2

theorem keepsSlots_editAll (m : MethodDef Body) (edits : List MethodEdit) :
    m.Agree Body.KeepsSlots (m.editAll edits) := by
  induction edits generalizing m with
  | nil => exact m.agree_refl Body.KeepsSlots.refl
  | cons e edits ih =>
      exact (m.keepsSlots_edit e).trans @Body.KeepsSlots.trans (ih (m.edit e))

/-! ## §3  The slot of the entry call -/

theorem exists_body_of_apply {p : Plan} {n : Nat} (hok : m.apply p = (.ok n, m')) :
    ∃ b, m.body? = some b := by
  cases hbody : m.body? with
  | none => simp [apply, hbody] at hok
  | some b => exact ⟨b, rfl⟩

theorem stloc_mem_entryCode {β : Type} (m : MethodDef β) (logger : FieldRef)
    (callable : MethodRef) (slot : UInt16) :
    .stloc slot ∈ entryCode m logger callable slot := by
  simp [entryCode]

/-- A plan for a method is applied after changes to it. Its entry call writes to
the slot that would have been the next one when it was planned, and names no
other; this is the slot that is added with it exactly if none of the changes
added one. -/
theorem entry_call_slot (m m' : MethodDef Body) (logger : FieldRef)
    (callable : MethodRef) (exit : ExitLogging) (p : Plan) (edits : List MethodEdit)
    (n : Nat) (hplan : m.plan logger callable exit = .ok p)
    (hok : (m.editAll edits).apply p = (.ok n, m')) :
    ∃ b c w entry exits added, m.body? = some b ∧ (m.editAll edits).body? = some c ∧
      m' = (m.editAll edits).withBody (some w) ∧ p.Applied c w entry exits ∧
      c.locals = b.locals ++ added ∧ w.locals = c.locals.push .objects ∧
      (∃ e ∈ entry, e.2 = .stloc (UInt16.ofNat b.locals.size)) ∧
      (∀ e ∈ entry, ∀ k, e.2.operand = .local k → k.toNat = b.locals.size) ∧
      ((∀ e ∈ entry, ∀ k, e.2.operand = .local k → k.toNat = c.locals.size) ↔
        added = #[]) := by
  obtain ⟨b, hp⟩ := plan_eq_ok hplan
  obtain ⟨c, hc⟩ := exists_body_of_apply hok
  obtain ⟨b', hb', added, hadded⟩ := (m.keepsSlots_editAll edits).exists_body hc
  obtain rfl : b = b' := Option.some.inj (hp.body.symm.trans hb')
  obtain ⟨-, w, entry, exits, hm', ha, hlocals, -⟩ := hp.applied_to hc hok
  have hslot : (UInt16.ofNat b.locals.size).toNat = b.locals.size :=
    UInt16.toNat_ofNat_of_lt' hp.slots
  have hcode :
      entry.map (·.2) = entryCode m logger callable (UInt16.ofNat b.locals.size) := by
    rw [ha.entryCode, hp.entry]
  have hstore : ∃ e ∈ entry, e.2 = .stloc (UInt16.ofNat b.locals.size) := by
    apply List.mem_map.mp
    rw [hcode]
    exact stloc_mem_entryCode m logger callable _
  have hnames :
      ∀ e ∈ entry, ∀ k, e.2.operand = .local k → k.toNat = b.locals.size := by
    intro e he k hk
    have hmem :=
      hcode ▸ List.mem_map_of_mem (f := fun e : Handle × Instruction Handle => e.2) he
    rw [(isLogStep_entryCode m logger callable _ e.2 hmem).slot_eq hk, hslot]
  refine ⟨b, c, w, entry, exits, added, hp.body, hc, hm', ha, hadded, hlocals,
    hstore, hnames, ?_⟩
  have hsize : c.locals.size = b.locals.size + added.size := by
    rw [hadded, Array.size_append]
  constructor
  · intro hlast
    obtain ⟨e, he, hstloc⟩ := hstore
    have hnumber := hlast e he (UInt16.ofNat b.locals.size) (by rw [hstloc]; rfl)
    exact Array.eq_empty_of_size_eq_zero (by omega)
  · rintro rfl e he k hk
    rw [hnames e he k hk, hsize]
    rfl

end MethodDef

/-- The entry call planned for a method that waits writes to the slot that is
added after planning; the one that is added for it comes second. -/
theorem entry_call_slot_waiting :
    ∃ m' w h,
      (waitingMethod.editAll [.pushLocal (.primitive .int32)]).apply waitingPlan =
        (.ok 1, m') ∧
      m'.body? = some w ∧ w.locals = #[.primitive .int32, .objects] ∧
      Body.waiting.instructions.contains h = false ∧
      w.instructions.get? h = some (.stloc 0) := by
  obtain ⟨m', hok⟩ : ∃ m',
      (waitingMethod.editAll [.pushLocal (.primitive .int32)]).apply waitingPlan =
        (.ok 1, m') :=
    ⟨_, Prod.ext (by decide +kernel) rfl⟩
  obtain ⟨b, c, w, entry, exits, added, hb, hc, hw, ha, -, hlocals,
      ⟨⟨h, i⟩, he, hstloc⟩, -⟩ :=
    MethodDef.entry_call_slot waitingMethod m' sampleLogger logInformation
      (.enabled arrayEmpty "Method exit") waitingPlan
      [.pushLocal (.primitive .int32)] 1 rfl hok
  obtain rfl : Body.waiting = b := Option.some.inj hb
  obtain rfl : { Body.waiting with locals := #[.primitive .int32] } = c :=
    Option.some.inj hc
  obtain rfl : i = .stloc 0 := hstloc
  refine ⟨m', w, h, hok, by rw [hw]; rfl, hlocals,
    ha.splices.new _ List.mem_cons_self _ he, ?_⟩
  exact ha.splices.get?_iff.mpr (.inr ⟨_, List.mem_cons_self, he⟩)

/-- An entry call may name a slot that was there before it and is not its own. -/
theorem entry_call_names_older_slot :
    ¬ ∀ (m m' : MethodDef Body) (logger : FieldRef) (callable : MethodRef)
        (exit : ExitLogging) (p : Plan) (edits : List MethodEdit) (n : Nat) (c : Body),
      m.plan logger callable exit = .ok p → (m.editAll edits).body? = some c →
      (m.editAll edits).apply p = (.ok n, m') →
      ∀ i ∈ p.entry.2.instructions, ∀ k, i.operand = .local k →
        k.toNat = c.locals.size := by
  intro halways
  have hok :
      ((waitingMethod.editAll [.pushLocal (.primitive .int32)]).apply waitingPlan).1 =
      .ok 1 := by decide +kernel
  have hzero := halways waitingMethod _ sampleLogger logInformation
    (.enabled arrayEmpty "Method exit") waitingPlan [.pushLocal (.primitive .int32)]
    1 { Body.waiting with locals := #[.primitive .int32] } rfl rfl (Prod.ext hok rfl)
    (.stloc 0) (MethodDef.stloc_mem_entryCode ..) 0 rfl
  cases hzero

end Instrumentation
