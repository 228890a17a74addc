import Mathlib.Data.List.Nodup
import Instrumentation.Json.Decode

/-!
# Decoding what was encoded

A decoder reads a value as some data if it comes up with the data wherever it
has room for the nesting of the value, and calls the value malformed wherever it
has not. There is a law for each way to put a decoder together, so that what
remains to be seen of a format is that its encoder and its decoder agree on
names.

A structure is described by its slots: its fields in order, each with its value
or, where the encoder leaves it out, with none.

Sections: §1 nesting · §2 plain values · §3 lists · §4 gathering · §5 structures
· §6 variants · §7 what decoders come up with.
-/

namespace Instrumentation.Json

/-! ## §1  Nesting -/

namespace Value

mutual

/-- How deep arrays and objects nest in a value. -/
def nesting : Value → Nat
  | .array items => itemsNesting items + 1
  | .object members => membersNesting members + 1
  | _ => 0

def itemsNesting : List Value → Nat
  | [] => 0
  | v :: vs => max v.nesting (itemsNesting vs)

def membersNesting : List (Option String × Value) → Nat
  | [] => 0
  | (_, v) :: ms => max v.nesting (membersNesting ms)

end

theorem itemsNesting_le_iff {vs : List Value} {n : Nat} :
    itemsNesting vs ≤ n ↔ ∀ v ∈ vs, v.nesting ≤ n := by
  induction vs with
  | nil => simp [itemsNesting]
  | cons v vs ih => rw [itemsNesting, Nat.max_le, ih, List.forall_mem_cons]

theorem membersNesting_le_iff {ms : List (Option String × Value)} {n : Nat} :
    membersNesting ms ≤ n ↔ ∀ m ∈ ms, m.2.nesting ≤ n := by
  induction ms with
  | nil => simp [membersNesting]
  | cons m ms ih =>
    obtain ⟨k, v⟩ := m
    rw [membersNesting, Nat.max_le, ih, List.forall_mem_cons]

theorem nesting_array_le_iff {vs : List Value} {n : Nat} :
    (array vs).nesting ≤ n + 1 ↔ ∀ v ∈ vs, v.nesting ≤ n := by
  rw [nesting, Nat.add_le_add_iff_right, itemsNesting_le_iff]

theorem nesting_record_le_iff {ms : List (String × Value)} {n : Nat} :
    (record ms).nesting ≤ n + 1 ↔ ∀ m ∈ ms, m.2.nesting ≤ n := by
  rw [record, nesting, Nat.add_le_add_iff_right,
    membersNesting_le_iff, List.forall_mem_map]

theorem nesting_tagged (tag : String) (content : Value) :
    (tagged tag content).nesting = content.nesting + 1 := by
  simp [tagged, nesting, membersNesting]

end Value

/-! ## §2  Plain values -/

/-- An answer that is `a` under a condition and refuses the text otherwise. -/
def Answers {α : Type} (answer : Except Fault α) (a : α) (fits : Prop) : Prop :=
  (fits → answer = .ok a) ∧ (¬ fits → answer = .error .malformed)

namespace Answers

variable {α β : Type} {answer : Except Fault α} {a : α} {b : β} {fits fits' : Prop}

theorem congr (h : Answers answer a fits) (hiff : fits ↔ fits') :
    Answers answer a fits' :=
  propext hiff ▸ h

theorem map (h : Answers answer a fits) (f : α → β) :
    Answers (answer.map f) (f a) fits :=
  ⟨fun hfits => by rw [h.1 hfits]; rfl, fun hfits => by rw [h.2 hfits]; rfl⟩

theorem bind {next : α → Except Fault β} (h : Answers answer a fits)
    (hnext : Answers (next a) b fits') :
    Answers (answer >>= next) b (fits ∧ fits') := by
  by_cases hfits : fits
  · rw [h.1 hfits]
    exact hnext.congr (by simp [hfits])
  · rw [h.2 hfits]
    exact ⟨fun hboth => absurd hboth.1 hfits, fun _ => rfl⟩

end Answers

/-- Whether a decoder reads a value as `a` where it has room for it, and refuses
it elsewhere. -/
def Decode.Reads {α : Type} (content : Decode α) (v : Value) (a : α) : Prop :=
  ∀ room, Answers (content room v) a (v.nesting ≤ room)

namespace Decode

section

variable {α β : Type} {content : Decode α} {v : Value} {a : α}

theorem reads_of_leaf (hleaf : v.nesting = 0) (hok : ∀ room, content room v = .ok a) :
    content.Reads v a :=
  fun room => ⟨fun _ => hok room, fun hnot => absurd (hleaf ▸ Nat.zero_le room) hnot⟩

theorem Reads.map (h : content.Reads v a) (f : α → β) :
    Decode.Reads (fun room v => (content room v).map f) v (f a) :=
  fun room => (h room).map f

end

theorem reads_bool (b : Bool) : bool.Reads (.bool b) b :=
  reads_of_leaf rfl fun _ => rfl

theorem reads_string (s : String) : string.Reads (.str s) s :=
  reads_of_leaf rfl fun _ => rfl

theorem reads_int {low high i : Int} (hlow : low ≤ i) (hhigh : i ≤ high) :
    (int low high).Reads (.int i) i :=
  reads_of_leaf rfl fun _ => if_pos ⟨hlow, hhigh⟩

theorem reads_nat {high n : Nat} (hn : n ≤ high) : (nat high).Reads (.nat n) n :=
  (reads_int (Int.natCast_nonneg n) (Int.ofNat_le.mpr hn)).map Int.toNat

theorem reads_uint16 (n : UInt16) : uint16.Reads (.nat n.toNat) n := by
  have hn : n.toNat ≤ UInt16.size - 1 := Nat.le_sub_one_of_lt n.toNat_lt
  have hreads := (reads_nat hn).map UInt16.ofNat
  rwa [UInt16.ofNat_toNat] at hreads

theorem reads_int32 (i : Int32) : int32.Reads (.int i.toInt) i := by
  have hreads := (reads_int i.minValue_le_toInt i.toInt_le).map Int32.ofInt
  rwa [Int32.ofInt_toInt] at hreads

theorem reads_int64 (i : Int64) : int64.Reads (.int i.toInt) i := by
  have hreads := (reads_int i.minValue_le_toInt i.toInt_le).map Int64.ofInt
  rwa [Int64.ofInt_toInt] at hreads

theorem reads_float64 (x : Binary64) : float64.Reads (.number (some (.real x))) x :=
  reads_of_leaf rfl fun _ => rfl

end Decode

/-! ## §3  Lists -/

theorem answers_mapM {α β : Type} {f : β → Except Fault α}
    {encode : α → β} {fits : α → Prop} {as : List α}
    (hitem : ∀ a ∈ as, Answers (f (encode a)) a (fits a)) :
    Answers ((as.map encode).mapM f) as (∀ a ∈ as, fits a) := by
  induction as with
  | nil => exact ⟨fun _ => rfl, fun hnot => absurd (by simp) hnot⟩
  | cons a as ih =>
    obtain ⟨ha, has⟩ := List.forall_mem_cons.mp hitem
    rw [List.map_cons, List.mapM_cons]
    have hpure : Answers (pure (a :: as) : Except Fault (List α)) (a :: as) True :=
      ⟨fun _ => rfl, by simp⟩
    exact (ha.bind ((ih has).bind hpure)).congr (by simp)

theorem Decode.reads_list {α : Type} {item : Decode α} {encode : α → Value}
    {as : List α} (hitem : ∀ a ∈ as, item.Reads (encode a) a) :
    (list item).Reads (.array (as.map encode)) as := by
  intro room
  cases room with
  | zero => exact ⟨fun hfits => absurd hfits (by simp [Value.nesting]), fun _ => rfl⟩
  | succ room =>
    refine (answers_mapM fun a ha => hitem a ha room).congr ?_
    rw [Value.nesting_array_le_iff, List.forall_mem_map]

/-- What may be missing is read as what it is where it is written as more than
null. -/
theorem Decode.reads_some {α : Type} {content : Decode α} {v : Value} {a : α}
    (hv : v ≠ .null) (h : content.Reads v a) : (option content).Reads v (some a) := by
  intro room
  have heq : option content room v = (content room v).map some := by
    unfold option
    split
    · exact absurd rfl hv
    · rfl
  rw [heq]
  exact (h room).map some

theorem Decode.reads_none {α : Type} (content : Decode α) :
    (option content).Reads .null none :=
  reads_of_leaf rfl fun _ => rfl

/-! ## §4  Gathering -/

namespace Gather

def Reads {α : Type} (g : Gather α) (a : α) (fits : Prop) : Prop :=
  (fits → g = .all a) ∧ (¬ fits → ∃ place, g = .fault place .malformed)

namespace Reads

variable {α β : Type} {a : α} {fits fits' : Prop}

theorem congr {g : Gather α} (h : g.Reads a fits) (hiff : fits ↔ fits') :
    g.Reads a fits' :=
  propext hiff ▸ h

theorem map {g : Gather α} (h : g.Reads a fits) (f : α → β) :
    Reads (f <$> g) (f a) fits := by
  refine ⟨fun hfits => by rw [h.1 hfits]; rfl, fun hfits => ?_⟩
  obtain ⟨place, hg⟩ := h.2 hfits
  exact ⟨place, by rw [hg]; rfl⟩

theorem seq {g : Gather (α → β)} {f : α → β} {x : Gather α} (hg : g.Reads f fits)
    (hx : x.Reads a fits') : Reads (g <*> x) (f a) (fits ∧ fits') := by
  by_cases hfits : fits <;> by_cases hfits' : fits'
  · rw [hg.1 hfits, hx.1 hfits']
    exact ⟨fun _ => rfl, fun hnot => absurd ⟨hfits, hfits'⟩ hnot⟩
  · obtain ⟨place, hplace⟩ := hx.2 hfits'
    rw [hg.1 hfits, hplace]
    exact ⟨fun hboth => absurd hboth.2 hfits', fun _ => ⟨place, rfl⟩⟩
  · obtain ⟨place, hplace⟩ := hg.2 hfits
    rw [hx.1 hfits', hplace]
    exact ⟨fun hboth => absurd hboth.1 hfits, fun _ => ⟨place, rfl⟩⟩
  · obtain ⟨place, hplace⟩ := hg.2 hfits
    obtain ⟨place', hplace'⟩ := hx.2 hfits'
    rw [hplace, hplace']
    refine ⟨fun hboth => absurd hboth.1 hfits, fun _ => ?_⟩
    by_cases hlt : place' < place
    · exact ⟨place', if_pos hlt⟩
    · exact ⟨place, if_neg hlt⟩

theorem ofExcept {answer : Except Fault α} (h : Answers answer a fits) (place : Nat) :
    Reads (Gather.ofExcept place answer) a fits :=
  ⟨fun hfits => by rw [h.1 hfits]; rfl, fun hfits => ⟨place, by rw [h.2 hfits]; rfl⟩⟩

theorem toExcept {g : Gather α} (h : g.Reads a fits) : Answers g.toExcept a fits := by
  refine ⟨fun hfits => by rw [h.1 hfits]; rfl, fun hfits => ?_⟩
  obtain ⟨place, hg⟩ := h.2 hfits
  rw [hg]
  rfl

end Reads

end Gather

/-! ## §5  Structures -/

/-- A field in its place, with its value or, where it is left out, with none. -/
abbrev Slot := String × Option Value

def present (slots : List Slot) : List (String × Value) :=
  slots.filterMap fun slot => slot.2.map fun v => (slot.1, v)

def SlotsFit (slots : List Slot) (room : Nat) : Prop :=
  ∀ slot ∈ slots, ∀ v ∈ slot.2, v.nesting ≤ room

theorem slotsFit_nil {room : Nat} : SlotsFit [] room ↔ True :=
  iff_true_intro fun _ hslot => absurd hslot List.not_mem_nil

theorem slotsFit_cons {name : String} {v? : Option Value}
    {slots : List Slot} {room : Nat} :
    SlotsFit ((name, v?) :: slots) room ↔
      (∀ v ∈ v?, v.nesting ≤ room) ∧ SlotsFit slots room :=
  List.forall_mem_cons

structure Fields.Holds (f : Fields) (slots : List Slot) : Prop where
  find : ∀ {name value?}, (name, value?) ∈ slots → (f.find? name).map (·.2) = value?
  byName : f.byName = true

theorem mem_present {slots : List Slot} {m : String × Value} :
    m ∈ present slots ↔ (m.1, some m.2) ∈ slots := by
  simp only [present, List.mem_filterMap, Option.map_eq_some_iff]
  constructor
  · rintro ⟨⟨k, v?⟩, hslot, v, rfl, rfl⟩
    exact hslot
  · intro hslot
    exact ⟨_, hslot, m.2, rfl, rfl⟩

theorem nodup_present {slots : List Slot} (hnodup : (slots.map (·.1)).Nodup) :
    ((present slots).map (·.1)).Nodup := by
  have hsublist : ((present slots).map (·.1)).Sublist (slots.map (·.1)) := by
    induction slots with
    | nil => exact List.Sublist.slnil
    | cons slot slots ih =>
      have ih := ih (List.nodup_cons.mp hnodup).2
      obtain ⟨k, v | v⟩ := slot
      · exact ih.cons k
      · exact ih.cons_cons k
  exact hsublist.nodup hnodup

theorem find?_present {slots : List Slot} (hnodup : (slots.map (·.1)).Nodup)
    {name : String} {value? : Option Value} (hslot : (name, value?) ∈ slots) :
    ((present slots).find? (fun m => m.1 == name)).map (·.2) = value? := by
  have hunique {v? : Option Value} (hother : (name, v?) ∈ slots) : v? = value? :=
    congrArg Prod.snd (List.inj_on_of_nodup_map hnodup hother hslot rfl)
  cases hfound : (present slots).find? (fun m => m.1 == name) with
  | some m =>
    have hname : m.1 = name := by simpa using List.find?_some hfound
    exact hunique (hname ▸ mem_present.mp (List.mem_of_find?_eq_some hfound))
  | none =>
    cases value? with
    | none => rfl
    | some v =>
      have hnot := List.find?_eq_none.mp hfound (name, v) (mem_present.mpr hslot)
      simp at hnot

/-- Members that are fields, each once, are taken in as they are. -/
theorem Fields.sortOut_eq {names : List String} (ms : List (String × Value))
    (hnodup : (ms.map (·.1)).Nodup) (hnames : ∀ m ∈ ms, m.1 ∈ names) (place : Nat)
    (seen : List String) (hseen : ∀ m ∈ ms, m.1 ∉ seen) :
    ∃ known, sortOut names place seen (ms.map fun (k, v) => (some k, v)) =
      (known, none) ∧
      known.map (fun m => (m.1, m.2.2)) = ms := by
  induction ms generalizing place seen with
  | nil => exact ⟨[], rfl, rfl⟩
  | cons m ms ih =>
    obtain ⟨k, v⟩ := m
    obtain ⟨hk, hnodup⟩ := List.nodup_cons.mp hnodup
    obtain ⟨hname, hnames⟩ := List.forall_mem_cons.mp hnames
    obtain ⟨hnew, hseen⟩ := List.forall_mem_cons.mp hseen
    have hseen' : ∀ m ∈ ms, m.1 ∉ k :: seen := by
      intro m hm
      rw [List.mem_cons, not_or]
      refine ⟨fun heq => hk ?_, hseen m hm⟩
      exact List.mem_map.mpr ⟨m, hm, heq⟩
    obtain ⟨known, hsort, hknown⟩ := ih hnodup hnames (place + 1) (k :: seen) hseen'
    refine ⟨(k, place, v) :: known, ?_, by simp [hknown]⟩
    simp only [List.map_cons, sortOut, if_pos hname, if_neg hnew, hsort]

/-- A field is read as what its slot holds or, if that is nothing, as what it is
when it is not given. -/
theorem Fields.Holds.read {α : Type} {f : Fields} {slots : List Slot}
    (hf : f.Holds slots) {name : String} {value? : Option Value}
    (hslot : (name, value?) ∈ slots) {absent : Option α} {content : Decode α} {a : α}
    (hgiven : ∀ v ∈ value?, Answers (content f.room v) a (v.nesting ≤ f.room))
    (habsent : value? = none → absent = some a) :
    (f.read name absent content).Reads a (∀ v ∈ value?, v.nesting ≤ f.room) := by
  have hfind := hf.find hslot
  unfold Fields.read
  cases hfound : f.find? name with
  | none =>
    rw [hfound] at hfind
    obtain rfl : value? = none := hfind.symm
    rw [habsent rfl]
    exact ⟨fun _ => rfl, fun hnot => absurd (by simp) hnot⟩
  | some found =>
    obtain ⟨place, v⟩ := found
    rw [hfound] at hfind
    obtain rfl : value? = some v := hfind.symm
    refine ((Gather.Reads.ofExcept (hgiven v rfl)) place).congr ?_
    simp

theorem Fields.Holds.given {α : Type} {f : Fields} {slots : List Slot}
    (hf : f.Holds slots) {name : String} {v : Value}
    (hslot : (name, some v) ∈ slots) {absent : Option α} {content : Decode α} {a : α}
    (hgiven : Answers (content f.room v) a (v.nesting ≤ f.room)) :
    (f.read name absent content).Reads a (v.nesting ≤ f.room) :=
  (hf.read hslot (fun _ hv => Option.some.inj hv ▸ hgiven) (by simp)).congr (by simp)

theorem nesting_present_le_iff {slots : List Slot} {room : Nat} :
    (Value.record (present slots)).nesting ≤ room + 1 ↔ SlotsFit slots room := by
  rw [Value.nesting_record_le_iff]
  constructor
  · rintro hfits ⟨k, v?⟩ hslot v rfl
    exact hfits (k, v) (mem_present.mpr hslot)
  · intro hfits m hm
    exact hfits _ (mem_present.mp hm) m.2 rfl

theorem Decode.answers_structure {α : Type} {names : List String}
    {body : Fields → Gather α} {a : α} {room : Nat} (slots : List Slot)
    (hnames : slots.map (·.1) = names) (hnodup : names.Nodup)
    (hbody : ∀ f : Fields, f.Holds slots → f.room = room →
      (body f).Reads a (SlotsFit slots room)) :
    Answers (Decode.structure names body (room + 1) (.record (present slots))) a
      (SlotsFit slots room) := by
  obtain ⟨known, hsort, hknown⟩ := Fields.sortOut_eq (present slots)
    (nodup_present (hnames ▸ hnodup))
    (fun m hm => hnames ▸ List.mem_map_of_mem (mem_present.mp hm)) 0 [] (by simp)
  let f : Fields :=
    { room, byName := true, known, flaw? := none, size := (present slots).length }
  have hholds : f.Holds slots := by
    refine ⟨fun {name value?} hslot => ?_, rfl⟩
    have hfind := find?_present (hnames ▸ hnodup) hslot
    rw [← hknown, List.find?_map, Option.map_map] at hfind
    rw [Fields.find?, Option.map_map]
    exact hfind
  have henter :
      Fields.enter? names (room + 1) (.record (present slots)) = some f := by
    simp only [Value.record, Fields.enter?, hsort, List.length_map]
    rfl
  have hsound : f.sound.Reads () True := ⟨fun _ => rfl, by simp⟩
  rw [Decode.structure, henter]
  exact (((hbody f hholds rfl).map fun a _ => a).seq hsound).toExcept.congr
    (iff_of_eq (and_true _))

/-- A structure is read from its record if its body is read from its slots. -/
theorem Decode.reads_structure {α : Type} {names : List String}
    {body : Fields → Gather α} {a : α} (slots : List Slot)
    (hnames : slots.map (·.1) = names) (hnodup : names.Nodup)
    (hbody : ∀ f : Fields, f.Holds slots → (body f).Reads a (SlotsFit slots f.room)) :
    (Decode.structure names body).Reads (.record (present slots)) a := by
  intro room
  cases room with
  | zero =>
      exact ⟨fun hfits => absurd hfits (by simp [Value.record, Value.nesting]),
        fun _ => rfl⟩
  | succ room =>
    refine (answers_structure slots hnames hnodup ?_).congr
      nesting_present_le_iff.symm
    rintro f hf rfl
    exact hbody f hf

/-! ## §6  Variants -/

section

variable {α : Type}

/-- A variant without content is read from its name. -/
theorem Decode.reads_name {ofName? : String → Option α} {tag : String} {a : α}
    (htag : ofName? tag = some a) : (Decode.name ofName?).Reads (.str tag) a := by
  refine reads_of_leaf rfl fun room => ?_
  cases room <;> simp [Decode.name, variant?, htag]

/-- A variant with content is read if its content is. -/
theorem Decode.reads_tagged {decode : Decode α} {content : Value} {tag : String}
    {a : α} (hnone : decode 0 (.tagged tag content) = .error .malformed)
    (hsome : ∀ room, Answers (decode (room + 1) (.tagged tag content)) a
      (content.nesting ≤ room)) :
    decode.Reads (.tagged tag content) a := by
  intro room
  rw [Value.nesting_tagged]
  cases room with
  | zero => exact ⟨fun hfits => absurd hfits (by simp), fun _ => hnone⟩
  | succ room => exact (hsome room).congr (by simp)

/-- The fields of a variant that are given by name are those of a structure. -/
theorem Decode.variantFields_record (source : Source) (names : List String)
    (body : Fields → Gather α) (room : Nat) (ms : List (String × Value)) :
    Decode.variantFields source names body room (.record ms) =
      Decode.structure names body room (.record ms) := by
  cases source <;> rfl

end

/-! ## §7  What decoders come up with -/

section

variable {α β : Type}

theorem Except.bind_eq_ok {ε : Type} {x : Except ε α} {f : α → Except ε β} {b : β}
    (hok : x >>= f = .ok b) : ∃ a, x = .ok a ∧ f a = .ok b := by
  cases x with
  | error e => cases hok
  | ok a => exact ⟨a, rfl, hok⟩

def Decode.Yields (content : Decode α) (a : α) : Prop :=
  ∃ room v, content room v = .ok a

def Gather.Always (g : Gather α) (P : α → Prop) : Prop := ∀ a, g = .all a → P a

namespace Gather

variable {P : β → Prop} {g : Gather (α → β)} {x : Gather α}

theorem Always.map {Q : α → Prop} {h : α → β} (hx : x.Always Q)
    (himp : ∀ a, Q a → P (h a)) : (h <$> x).Always P := by
  intro b hall
  cases x with
  | all a =>
    obtain rfl : h a = b := Gather.all.inj hall
    exact himp a (hx a rfl)
  | fault place e => cases hall

theorem always_map {h : α → β} (hP : ∀ a, P (h a)) : (h <$> x).Always P :=
  Always.map (Q := fun _ => True) (fun _ _ => trivial) fun a _ => hP a

theorem Always.seq {Q : α → Prop} (hg : g.Always fun h => ∀ a, Q a → P (h a))
    (hx : x.Always Q) : (g <*> x).Always P := by
  intro b hall
  cases g with
  | all h =>
    cases x with
    | all a =>
      obtain rfl : h a = b := Gather.all.inj hall
      exact hg h rfl a (hx a rfl)
    | fault place e => cases hall
  | fault place e =>
    cases x with
    | all a => cases hall
    | fault place' e' =>
      have hfault : (if place' < place then Gather.fault place' e'
          else .fault place e) = .all b := hall
      split at hfault <;> cases hfault

/-- The property does not depend on a member. -/
theorem Always.any (hg : g.Always fun h => ∀ a, P (h a)) : (g <*> x).Always P :=
  Always.seq (Q := fun _ => True) (fun h hh a _ => hg h hh a) fun _ _ => trivial

end Gather

theorem Fields.always_read {f : Fields} {name : String} {absent : Option α}
    {content : Decode α} {P : α → Prop} (habsent : ∀ a ∈ absent, P a)
    (hcontent : ∀ a, content.Yields a → P a) :
    (f.read name absent content).Always P := by
  intro a hall
  unfold Fields.read at hall
  split at hall
  · rename_i place v _
    cases hread : content f.room v with
    | ok a' =>
      rw [hread] at hall
      exact hcontent a ⟨f.room, v, Gather.all.inj hall ▸ hread⟩
    | error e => simp [hread, Gather.ofExcept] at hall
  · cases absent with
    | some a' => exact habsent a (congrArg some (Gather.all.inj hall))
    | none => cases hall

namespace Decode.Yields

theorem of_structure {names : List String} {body : Fields → Gather α}
    {P : α → Prop} {a : α} (h : Yields (Decode.structure names body) a)
    (hbody : ∀ f, (body f).Always P) : P a := by
  obtain ⟨room, v, hok⟩ := h
  unfold Decode.structure at hok
  split at hok
  · rename_i f _
    have hsound : ((fun a (_ : Unit) => a) <$> body f <*> f.sound).Always P :=
      Gather.Always.any ((hbody f).map fun a ha _ => ha)
    cases hall : body f <* f.sound with
    | all a' =>
      rw [hall] at hok
      exact Except.ok.inj hok ▸ hsound a' hall
    | fault place e =>
      rw [hall] at hok
      cases hok
  · cases hok

theorem of_list {item : Decode α} {as : List α} (h : (Decode.list item).Yields as) :
    ∀ a ∈ as, item.Yields a := by
  obtain ⟨room, v, hok⟩ := h
  unfold Decode.list at hok
  split at hok
  · rename_i room items
    induction items generalizing as with
    | nil =>
      obtain rfl : [] = as := Except.ok.inj hok
      simp
    | cons v vs ih =>
      rw [List.mapM_cons] at hok
      obtain ⟨a, hv, hok⟩ := Except.bind_eq_ok hok
      obtain ⟨rest, hvs, hok⟩ := Except.bind_eq_ok hok
      obtain rfl : a :: rest = as := Except.ok.inj hok
      exact List.forall_mem_cons.mpr ⟨⟨room, v, hv⟩, ih hvs⟩
  · cases hok

theorem of_option {content : Decode α} {a : α}
    (h : (Decode.option content).Yields (some a)) : content.Yields a := by
  obtain ⟨room, v, hok⟩ := h
  unfold Decode.option at hok
  split at hok
  · cases hok
  · cases hcontent : content room v with
    | error e => simp [hcontent, Except.map] at hok
    | ok a' =>
      rw [hcontent] at hok
      exact ⟨room, v, Option.some.inj (Except.ok.inj hok) ▸ hcontent⟩

end Decode.Yields

end

end Instrumentation.Json
