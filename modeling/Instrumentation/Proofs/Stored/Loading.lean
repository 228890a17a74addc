import Mathlib.Data.List.Forall2
import Instrumentation.Proofs.Stored.RoundTrip

/-!
# Loading modules

Loading a module is loading its bodies one after the other, each into a list of
its own; everything else stays. So a module can be loaded exactly when each of
its bodies can, and what one body becomes when it is stored and loaded all of
them become.

Sections: §1 modules that agree but for their bodies · §2 loading · §3 storing
and loading.
-/

namespace Instrumentation

open Json

/-! ## §1  Modules that agree but for their bodies -/

section

variable {β γ δ : Type}

/-- Two methods that agree in all but their bodies, which are related. -/
structure MethodDef.Agree (R : β → γ → Prop) (m : MethodDef β)
    (m' : MethodDef γ) : Prop where
  rest : m'.withBody (none : Option Unit) = m.withBody none
  body : Option.Rel R m.body? m'.body?

structure TypeDef.Agree (R : β → γ → Prop) (t : TypeDef β)
    (t' : TypeDef γ) : Prop where
  rest : t'.withMethods ([] : List (MethodDef Unit)) = t.withMethods []
  methods : List.Forall₂ (MethodDef.Agree R) t.methods t'.methods

structure Module.Agree (R : β → γ → Prop) (m : Module β) (m' : Module γ) : Prop where
  rest : m'.withTypes ([] : List (TypeDef Unit)) = m.withTypes []
  types : List.Forall₂ (TypeDef.Agree R) m.types m'.types

variable {R : β → γ → Prop}

section

variable {S : β → β → Prop} (hrefl : ∀ b, S b b)

include hrefl

theorem MethodDef.agree_refl (m : MethodDef β) : m.Agree S m := by
  refine ⟨rfl, ?_⟩
  cases m.body? with
  | none => exact .none
  | some b => exact .some (hrefl b)

theorem TypeDef.agree_refl (t : TypeDef β) : t.Agree S t :=
  ⟨rfl, List.forall₂_same.mpr fun m _ => m.agree_refl hrefl⟩

theorem Module.agree_refl (m : Module β) : m.Agree S m :=
  ⟨rfl, List.forall₂_same.mpr fun t _ => t.agree_refl hrefl⟩

end

theorem forall₂_trans {S : β → β → Prop} (htrans : ∀ {b c d}, S b c → S c d → S b d)
    {bs cs ds : List β} (h : List.Forall₂ S bs cs) (h' : List.Forall₂ S cs ds) :
    List.Forall₂ S bs ds := by
  induction h generalizing ds with
  | nil => exact h'
  | cons hbc _ ih =>
    cases h' with
    | cons hcd hrest => exact .cons (htrans hbc hcd) (ih hrest)

section

variable {S : β → β → Prop} (htrans : ∀ {b c d}, S b c → S c d → S b d)

include htrans

theorem MethodDef.Agree.trans {m m' m'' : MethodDef β} (h : m.Agree S m')
    (h' : m'.Agree S m'') : m.Agree S m'' := by
  refine ⟨h'.rest.trans h.rest, ?_⟩
  have hfirst := h.body
  have hsecond := h'.body
  generalize m.body? = b?, m'.body? = c?, m''.body? = d? at hfirst hsecond
  cases hfirst with
  | none => exact hsecond
  | some hbc =>
    cases hsecond with
    | some hcd => exact .some (htrans hbc hcd)

theorem TypeDef.Agree.trans {t t' t'' : TypeDef β} (h : t.Agree S t')
    (h' : t'.Agree S t'') : t.Agree S t'' :=
  ⟨h'.rest.trans h.rest, forall₂_trans (fun hm hm' => hm.trans @htrans hm')
    h.methods h'.methods⟩

theorem Module.Agree.trans {m m' m'' : Module β} (h : m.Agree S m')
    (h' : m'.Agree S m'') : m.Agree S m'' :=
  ⟨h'.rest.trans h.rest, forall₂_trans (fun ht ht' => ht.trans @htrans ht')
    h.types h'.types⟩

end

section

variable {S : β → γ → Prop} (himp : ∀ b c, R b c → S b c)

include himp

theorem MethodDef.Agree.mono {m : MethodDef β} {m' : MethodDef γ} (h : m.Agree R m') :
    m.Agree S m' := by
  refine ⟨h.rest, ?_⟩
  have hbody := h.body
  generalize m.body? = b?, m'.body? = c? at hbody
  cases hbody with
  | none => exact .none
  | some hbc => exact .some (himp _ _ hbc)

theorem Module.Agree.mono {m : Module β} {m' : Module γ} (h : m.Agree R m') :
    m.Agree S m' :=
  ⟨h.rest, h.types.imp fun _ _ ht =>
    ⟨ht.rest, ht.methods.imp fun _ _ hm => hm.mono himp⟩⟩

end

section

variable {P : β → Prop}

theorem MethodDef.Agree.and_left {m : MethodDef β} {m' : MethodDef γ}
    (h : m.Agree R m') (hm : ∀ b ∈ m.body?, P b) :
    m.Agree (fun b c => P b ∧ R b c) m' := by
  refine ⟨h.rest, ?_⟩
  have hbody := h.body
  generalize m.body? = b?, m'.body? = c? at hm hbody
  cases hbody with
  | none => exact .none
  | some hbc => exact .some ⟨hm _ rfl, hbc⟩

theorem TypeDef.Agree.and_left {t : TypeDef β} {t' : TypeDef γ} (h : t.Agree R t')
    (ht : ∀ b ∈ t.bodies, P b) : t.Agree (fun b c => P b ∧ R b c) t' := by
  have hm : ∀ m ∈ t.methods, ∀ b ∈ m.body?, P b :=
    fun m hm b hb => ht b (mem_bodies.mpr ⟨m, hm, hb⟩)
  exact ⟨h.rest, ((List.forall₂_and_left _ _).mpr ⟨hm, h.methods⟩).imp
    fun _ _ hboth => hboth.2.and_left hboth.1⟩

/-- What holds of all bodies of a module can be taken into what they agree in. -/
theorem Module.Agree.and_left {m : Module β} {m' : Module γ} (h : m.Agree R m')
    (hm : ∀ b ∈ m.bodies, P b) : m.Agree (fun b c => P b ∧ R b c) m' := by
  have ht : ∀ t ∈ m.types, ∀ b ∈ t.bodies, P b :=
    fun t ht b hb => hm b (List.mem_flatMap_of_mem ht hb)
  exact ⟨h.rest, ((List.forall₂_and_left _ _).mpr ⟨ht, h.types⟩).imp fun _ _ hboth =>
    hboth.2.and_left hboth.1⟩

end

theorem MethodDef.Agree.exists_body {m : MethodDef β} {m' : MethodDef γ}
    (h : m.Agree R m') {c : γ} (hc : m'.body? = some c) :
    ∃ b, m.body? = some b ∧ R b c := by
  have hbody := h.body
  rw [hc] at hbody
  generalize m.body? = b? at hbody
  cases hbody with
  | some hbc => exact ⟨_, rfl, hbc⟩

theorem Module.Agree.bodies {m : Module β} {m' : Module γ} (h : m.Agree R m') :
    List.Forall₂ R m.bodies m'.bodies :=
  List.rel_flatMap h.types fun _ _ ht =>
    List.rel_filterMap (fun _ _ hm => hm.body) ht.methods

theorem exists_of_mem_forall₂ {bs : List β} {cs : List γ}
    (hall : List.Forall₂ R bs cs) {c : γ} (hc : c ∈ cs) : ∃ b ∈ bs, R b c := by
  induction hall with
  | nil => simp at hc
  | cons hfirst _ ih =>
    rcases List.mem_cons.mp hc with rfl | hc
    · exact ⟨_, List.mem_cons_self, hfirst⟩
    · obtain ⟨b, hb, hbc⟩ := ih hc
      exact ⟨b, List.mem_cons_of_mem _ hb, hbc⟩

theorem Module.bodies_map (m : Module β) (f : β → γ) :
    (m.map f).bodies = m.bodies.map f := by
  simp [bodies, TypeDef.bodies, map, TypeDef.map, MethodDef.map, Module.withTypes,
    TypeDef.withMethods, MethodDef.withBody, List.map_flatMap, List.flatMap_map,
    List.filterMap_map, List.map_filterMap]

section

variable {f : β → δ} {S : δ → γ → Prop}

theorem MethodDef.agree_map_left_iff {m : MethodDef β} {m' : MethodDef γ} :
    (m.map f).Agree S m' ↔ m.Agree (fun b => S (f b)) m' := by
  have hbody : Option.Rel S (m.body?.map f) m'.body? ↔
      Option.Rel (fun b => S (f b)) m.body? m'.body? := by
    cases m.body? <;> cases m'.body? <;> simp
  exact ⟨fun h => ⟨h.rest, hbody.mp h.body⟩, fun h => ⟨h.rest, hbody.mpr h.body⟩⟩

theorem TypeDef.agree_map_left_iff {t : TypeDef β} {t' : TypeDef γ} :
    (t.map f).Agree S t' ↔ t.Agree (fun b => S (f b)) t' := by
  have hmethods :
      List.Forall₂ (MethodDef.Agree S) (t.methods.map (·.map f)) t'.methods ↔
      List.Forall₂ (MethodDef.Agree fun b => S (f b)) t.methods t'.methods := by
    simp only [List.forall₂_map_left_iff, MethodDef.agree_map_left_iff]
  exact ⟨fun h => ⟨h.rest, hmethods.mp h.methods⟩,
    fun h => ⟨h.rest, hmethods.mpr h.methods⟩⟩

/-- What a module with mapped bodies agrees with, the module itself agrees with
under the map. -/
theorem Module.agree_map_left_iff {m : Module β} {m' : Module γ} :
    (m.map f).Agree S m' ↔ m.Agree (fun b => S (f b)) m' := by
  have htypes : List.Forall₂ (TypeDef.Agree S) (m.types.map (·.map f)) m'.types ↔
      List.Forall₂ (TypeDef.Agree fun b => S (f b)) m.types m'.types := by
    simp only [List.forall₂_map_left_iff, TypeDef.agree_map_left_iff]
  exact ⟨fun h => ⟨h.rest, htypes.mp h.types⟩, fun h => ⟨h.rest, htypes.mpr h.types⟩⟩

end

section

variable {f : γ → β}

theorem map_eq_of_forall₂ {bs : List β} {cs : List γ} (hall : List.Forall₂ R bs cs)
    (hsame : ∀ b c, R b c → f c = b) : cs.map f = bs := by
  induction hall with
  | nil => rfl
  | cons hfirst _ ih => rw [List.map_cons, hsame _ _ hfirst, ih]

theorem MethodDef.Agree.map_eq {m : MethodDef β} {m' : MethodDef γ}
    (h : m.Agree (fun b c => f c = b) m') : m'.map f = m := by
  have hbody : m'.body?.map f = m.body? := by
    have hrel := h.body
    generalize m.body? = b?, m'.body? = c? at hrel
    cases hrel with
    | none => rfl
    | some hbc => exact congrArg some hbc
  have hrest : m'.withBody m.body? = m := congrArg (·.withBody m.body?) h.rest
  rw [MethodDef.map, hbody, hrest]

theorem TypeDef.Agree.map_eq {t : TypeDef β} {t' : TypeDef γ}
    (h : t.Agree (fun b c => f c = b) t') : t'.map f = t := by
  have hmethods : t'.methods.map (·.map f) = t.methods :=
    map_eq_of_forall₂ h.methods fun _ _ hm => hm.map_eq
  have hrest : t'.withMethods t.methods = t :=
    congrArg (·.withMethods t.methods) h.rest
  rw [TypeDef.map, hmethods, hrest]

/-- A module is what it agrees with if mapping leads from the bodies of the
other to its own. -/
theorem Module.Agree.map_eq {m : Module β} {m' : Module γ}
    (h : m.Agree (fun b c => f c = b) m') : m'.map f = m := by
  have htypes : m'.types.map (·.map f) = m.types :=
    map_eq_of_forall₂ h.types fun _ _ ht => ht.map_eq
  have hrest : m'.withTypes m.types = m := congrArg (·.withTypes m.types) h.rest
  rw [Module.map, htypes, hrest]

end

end

/-! ## §2  Loading -/

/-- What a stored body is loaded as, whatever identity its list is given. -/
def StoredBody.LoadsAs (s : StoredBody) (b : Body) : Prop :=
  ∃ identity, Body.ofStored identity s = .ok b

section

variable {next next' : Nat}

theorem MethodDef.agree_of_ofStored {m : MethodDef StoredBody} {m' : MethodDef Body}
    (hload : m.ofStored next = .ok (m', next')) : m.Agree StoredBody.LoadsAs m' := by
  unfold ofStored at hload
  split at hload
  · rename_i hbody
    obtain ⟨rfl, -⟩ := Prod.mk.inj (Except.ok.inj hload)
    exact ⟨rfl, hbody ▸ .none⟩
  · rename_i s hbody
    obtain ⟨b, hs, hrest⟩ := Except.bind_eq_ok hload
    obtain ⟨rfl, -⟩ := Prod.mk.inj (Except.ok.inj hrest)
    exact ⟨rfl, hbody ▸ .some ⟨next, hs⟩⟩

theorem MethodDef.agree_of_listOfStored {ms : List (MethodDef StoredBody)}
    {ms' : List (MethodDef Body)} (hload : listOfStored next ms = .ok (ms', next')) :
    List.Forall₂ (Agree StoredBody.LoadsAs) ms ms' := by
  induction ms generalizing next next' ms' with
  | nil =>
    obtain ⟨rfl, -⟩ := Prod.mk.inj (Except.ok.inj hload)
    exact .nil
  | cons m ms ih =>
    obtain ⟨⟨m', next₁⟩, hm, hload⟩ := Except.bind_eq_ok hload
    obtain ⟨⟨ms', next₂⟩, hms, hload⟩ := Except.bind_eq_ok hload
    obtain ⟨rfl, -⟩ := Prod.mk.inj (Except.ok.inj hload)
    exact .cons (agree_of_ofStored hm) (ih hms)

theorem TypeDef.agree_of_ofStored {t : TypeDef StoredBody} {t' : TypeDef Body}
    (hload : t.ofStored next = .ok (t', next')) : t.Agree StoredBody.LoadsAs t' := by
  obtain ⟨⟨ms, next₁⟩, hms, hload⟩ := Except.bind_eq_ok hload
  obtain ⟨rfl, -⟩ := Prod.mk.inj (Except.ok.inj hload)
  exact ⟨rfl, MethodDef.agree_of_listOfStored hms⟩

theorem TypeDef.agree_of_listOfStored {ts : List (TypeDef StoredBody)}
    {ts' : List (TypeDef Body)} (hload : listOfStored next ts = .ok (ts', next')) :
    List.Forall₂ (Agree StoredBody.LoadsAs) ts ts' := by
  induction ts generalizing next next' ts' with
  | nil =>
    obtain ⟨rfl, -⟩ := Prod.mk.inj (Except.ok.inj hload)
    exact .nil
  | cons t ts ih =>
    obtain ⟨⟨t', next₁⟩, ht, hload⟩ := Except.bind_eq_ok hload
    obtain ⟨⟨ts', next₂⟩, hts, hload⟩ := Except.bind_eq_ok hload
    obtain ⟨rfl, -⟩ := Prod.mk.inj (Except.ok.inj hload)
    exact .cons (agree_of_ofStored ht) (ih hts)

/-- A module is loaded body by body. -/
theorem Module.agree_of_ofStored {m : Module StoredBody} {m' : Module Body}
    (hload : ofStored next m = .ok (m', next')) : m.Agree StoredBody.LoadsAs m' := by
  obtain ⟨⟨ts, next₁⟩, hts, hload⟩ := Except.bind_eq_ok hload
  obtain ⟨rfl, -⟩ := Prod.mk.inj (Except.ok.inj hload)
  exact ⟨rfl, TypeDef.agree_of_listOfStored hts⟩

theorem MethodDef.exists_ofStored (next : Nat) {m : MethodDef StoredBody}
    (hbody : ∀ s ∈ m.body?, s.fault? = none) : ∃ r, m.ofStored next = .ok r := by
  unfold ofStored
  split
  · exact ⟨_, rfl⟩
  · rename_i s hs
    obtain ⟨b, hb⟩ := (Body.exists_ofStored_iff next).mpr (hbody s hs)
    exact ⟨(m.withBody (some b), next + 1), by rw [hb]; rfl⟩

theorem MethodDef.exists_listOfStored (next : Nat) {ms : List (MethodDef StoredBody)}
    (hbodies : ∀ m ∈ ms, ∀ s ∈ m.body?, s.fault? = none) :
    ∃ r, listOfStored next ms = .ok r := by
  induction ms generalizing next with
  | nil => exact ⟨_, rfl⟩
  | cons m ms ih =>
    obtain ⟨hm, hms⟩ := List.forall_mem_cons.mp hbodies
    obtain ⟨⟨m', next₁⟩, hfirst⟩ := exists_ofStored next hm
    obtain ⟨⟨ms', next₂⟩, hrest⟩ := ih next₁ hms
    exact ⟨(m' :: ms', next₂), by
      rw [listOfStored, hfirst]; simp only [bind, Except.bind, hrest]; rfl⟩

theorem TypeDef.exists_ofStored (next : Nat) {t : TypeDef StoredBody}
    (hbodies : ∀ s ∈ t.bodies, s.fault? = none) : ∃ r, t.ofStored next = .ok r := by
  obtain ⟨⟨ms, next₁⟩, hms⟩ := MethodDef.exists_listOfStored next fun m hm s hs =>
    hbodies s (mem_bodies.mpr ⟨m, hm, hs⟩)
  exact ⟨(t.withMethods ms, next₁), by rw [ofStored, hms]; rfl⟩

theorem TypeDef.exists_listOfStored (next : Nat) {ts : List (TypeDef StoredBody)}
    (hbodies : ∀ t ∈ ts, ∀ s ∈ t.bodies, s.fault? = none) :
    ∃ r, listOfStored next ts = .ok r := by
  induction ts generalizing next with
  | nil => exact ⟨_, rfl⟩
  | cons t ts ih =>
    obtain ⟨ht, hts⟩ := List.forall_mem_cons.mp hbodies
    obtain ⟨⟨t', next₁⟩, hfirst⟩ := exists_ofStored next ht
    obtain ⟨⟨ts', next₂⟩, hrest⟩ := ih next₁ hts
    exact ⟨(t' :: ts', next₂), by
      rw [listOfStored, hfirst]; simp only [bind, Except.bind, hrest]; rfl⟩

theorem Module.exists_ofStored_iff (next : Nat) {m : Module StoredBody} :
    (∃ r, ofStored next m = .ok r) ↔ ∀ s ∈ m.bodies, s.fault? = none := by
  constructor
  · rintro ⟨⟨m', next'⟩, hload⟩ s hs
    obtain ⟨b, -, identity, hb⟩ :=
      exists_of_mem_forall₂ (agree_of_ofStored hload).bodies.flip hs
    exact (Body.ofStored_eq_ok_iff.mp hb).1
  · intro hbodies
    obtain ⟨⟨ts, next₁⟩, hts⟩ := TypeDef.exists_listOfStored next fun t ht s hs =>
      hbodies s (List.mem_flatMap_of_mem ht hs)
    exact ⟨(m.withTypes ts, next₁), by rw [ofStored, hts]; rfl⟩

end

/-! ## §3  Storing and loading -/

/-- Two bodies that differ in the names of their handles. -/
def Body.Alike (b c : Body) : Prop := ∃ f, Renaming f b c

/-- A body that can be stored and loaded again: it names none but its own
instructions and has no more of them than a list can hold. -/
structure Body.Sound (b : Body) : Prop where
  linked : b.IsLinked
  size : b.instructions.size ≤ InstructionList.capacity

theorem StoredBody.LoadsAs.sound {s : StoredBody} {b : Body}
    (h : s.LoadsAs b) : b.Sound := by
  obtain ⟨identity, hload⟩ := h
  obtain ⟨hfault, rfl⟩ := Body.ofStored_eq_ok_iff.mp hload
  obtain ⟨hcapacity, hreferences⟩ := fault?_eq_none_iff.mp hfault
  refine ⟨isLinked_bind hreferences, ?_⟩
  simpa [bind] using hcapacity

theorem StoredBody.LoadsAs.toStored {s : StoredBody} {b : Body} (h : s.LoadsAs b) :
    b.toStored = s := by
  obtain ⟨identity, hload⟩ := h
  obtain ⟨hfault, rfl⟩ := Body.ofStored_eq_ok_iff.mp hload
  exact toStored_bind (fault?_eq_none_iff.mp hfault).2

/-- Each body of a module that has been loaded can be stored and loaded again. -/
theorem Module.sound_of_ofStored {m : Module StoredBody} {home : Module Body}
    {next next' : Nat} (hload : ofStored next m = .ok (home, next')) :
    ∀ b ∈ home.bodies, b.Sound := by
  intro b hb
  obtain ⟨s, -, hs⟩ := exists_of_mem_forall₂ (agree_of_ofStored hload).bodies hb
  exact hs.sound

/-- A module that has been loaded is stored as what it was loaded from. -/
theorem Module.toStored_of_ofStored {m : Module StoredBody} {home : Module Body}
    {next next' : Nat} (hload : ofStored next m = .ok (home, next')) :
    home.toStored = m :=
  ((agree_of_ofStored hload).mono fun _ _ h => h.toStored).map_eq

theorem Body.Sound.fault?_toStored {b : Body} (hb : b.Sound) :
    b.toStored.fault? = none := by
  rw [StoredBody.fault?_eq_none_iff, length_toStored,
    references_toStored, List.forall_mem_map]
  exact ⟨hb.size, fun h hh =>
    storedPosition_lt (isLinked_iff_named.mp hb.linked h hh)⟩

/-- A module whose bodies are sound is stored as one that can be loaded, and
comes back with new names for its handles. -/
theorem Module.exists_ofStored_toStored {m : Module Body}
    (hm : ∀ b ∈ m.bodies, b.Sound) (next : Nat) :
    ∃ again next', ofStored next m.toStored = .ok (again, next') ∧
      m.Agree Body.Alike again := by
  have hfault : ∀ s ∈ m.toStored.bodies, s.fault? = none := by
    rw [toStored, bodies_map, List.forall_mem_map]
    exact fun b hb => (hm b hb).fault?_toStored
  obtain ⟨⟨again, next'⟩, hload⟩ := (exists_ofStored_iff next).mpr hfault
  refine ⟨again, next', hload, ?_⟩
  refine (agree_map_left_iff.mp (agree_of_ofStored hload)).mono ?_
  rintro b c ⟨identity, hc⟩
  exact Body.exists_renaming_of_ofStored hc

end Instrumentation
