import Instrumentation.Proofs.ListEdits

/-!
# Families of instruction lists

A program makes instruction lists, copies them and lets each of them grow. A
handle says which list issued it by the identity of that list, and a copy has
the identity of the list that it is a copy of. So a list and its copies form a
family within which handles are told apart by their index alone, while handles
of other families denote nothing, as long as identities are not given twice:
they are numbers of thirty-two bits.

What a list knows is the line of instructions that were issued for it, by itself
and, up to the copying, by the list that it comes from. The line is read off the
history of all lists. Two lists of one family have their line in common up to
where one was copied; from there on each of them goes on counting, and a handle
that the other issues denotes whatever stands at that place in its own line.

Sections: §1 what a list has issued · §2 histories · §3 lines and families · §4
what is recorded · §5 handles.
-/

namespace Instrumentation

open InstructionList

/-! ## §1  What a list has issued -/

namespace InstructionList

variable {l : InstructionList} {h : Handle} {i : Instruction Handle}

def ledger (l : InstructionList) : List Entry :=
  (List.range l.size).map fun n => (l.handle n, l.issued n)

theorem length_ledger (l : InstructionList) : l.ledger.length = l.size := by
  simp [ledger]

theorem mem_ledger : (h, i) ∈ l.ledger ↔ l.get? h = some i := by
  rw [← mem_entries]
  simp only [ledger, entries, List.mem_map, List.mem_range, mem_order]

theorem ledger_putAll (l : InstructionList) {before? : Option Nat}
    (hbefore : ∀ m ∈ before?, m < l.size) (block : List (Instruction Handle)) :
    (l.putAll before? hbefore block).ledger =
      l.ledger ++ (l.fresh block.length).zip block := by
  have hold : (List.range l.size).map
      (fun n => (l.handle n, (l.putAll before? hbefore block).issued n)) =
      l.ledger := by
    apply List.map_congr_left
    intro n hn
    rw [issued_putAll_of_lt (List.mem_range.mp hn)]
  rw [← hold, ← l.entries_fresh hbefore, ← List.map_append]
  simp only [ledger, size_putAll, List.range_eq_range',
    ← List.range'_append_1, Nat.zero_add]
  rfl

theorem ledger_insertAt (l : InstructionList) (p : Nat)
    (block : List (Instruction Handle)) :
    (l.insertAt p block).ledger = l.ledger ++ (l.fresh block.length).zip block :=
  l.ledger_putAll _ block

/-- To push an instruction, or to put one before another, issues one handle, or
fails and leaves what has been issued. -/
theorem ledger_edit (l : InstructionList) {e : ListEdit}
    (he : e = .push i ∨ ∃ anchor, e = .insert anchor i) :
    (l.edit e).2.identity = l.identity ∧
      ((∃ h, (l.edit e).1 = .ok [h] ∧ (l.edit e).2.ledger = l.ledger ++ [(h, i)]) ∨
        (∃ cause, (l.edit e).1 = .error cause) ∧ (l.edit e).2.ledger = l.ledger) := by
  rcases he with rfl | ⟨anchor, rfl⟩
  · by_cases hroom : l.size < capacity
    · rw [edit, push_of_room hroom]
      exact ⟨rfl, .inl ⟨_, rfl, l.ledger_putAll (by simp) [i]⟩⟩
    · rw [edit, push_of_full hroom]
      exact ⟨rfl, .inr ⟨⟨_, rfl⟩, rfl⟩⟩
  · rw [edit]
    by_cases hin : l.contains anchor = true
    · obtain ⟨p, -, heq⟩ := insertBefore_of_contains hin [i]
      by_cases hroom : [i].length ≤ capacity - l.size
      · rw [heq, if_pos hroom, List.take_of_length_le hroom]
        exact ⟨rfl, .inl ⟨_, rfl, l.ledger_insertAt p [i]⟩⟩
      · have hnone : capacity - l.size = 0 := by
          rw [List.length_singleton] at hroom
          omega
        rw [heq, if_neg hroom, hnone]
        exact ⟨rfl, .inr ⟨⟨_, rfl⟩, (l.ledger_insertAt p []).trans
          (List.append_nil _)⟩⟩
    · rw [insertBefore, dif_neg hin]
      exact ⟨rfl, .inr ⟨⟨_, rfl⟩, rfl⟩⟩

end InstructionList

/-! ## §2  Histories -/

/-- What is done with instruction lists, which are numbered in the order in
which they came up. -/
inductive FamilyStep where
  | create
  | clone (source : Nat)
  | push (list : Nat) (i : Instruction Handle)
  | insert (list : Nat) (anchor : Handle) (i : Instruction Handle)

/-- What came of a step: a new list, a copy, or a handle for an instruction. -/
inductive FamilyEvent where
  | created
  | cloned (source : Nat)
  | issued (list : Nat) (h : Handle) (i : Instruction Handle)
deriving DecidableEq

/-- All lists, the identity for the next one, and what has happened, the latest
first. -/
structure ListHistory where
  next : UInt32
  lists : List InstructionList
  events : List FamilyEvent

namespace ListHistory

/-- Makes an edit that issues a handle for an instruction, unless it fails. -/
def issue (x : ListHistory) (list : Nat) (e : ListEdit) (i : Instruction Handle) :
    ListHistory :=
  match x.lists[list]? with
  | none => x
  | some l =>
    let lists := x.lists.set list (l.edit e).2
    match (l.edit e).1 with
    | .ok [h] => { x with lists, events := .issued list h i :: x.events }
    | _ => { x with lists }

/-- Takes a step; where there is no such list nothing happens. -/
def step (x : ListHistory) : FamilyStep → ListHistory
  | .create => ⟨x.next + 1, x.lists ++ [.empty x.next.toNat], .created :: x.events⟩
  | .clone source =>
    match x.lists[source]? with
    | none => x
    | some l =>
        { x with lists := x.lists ++ [l], events := .cloned source :: x.events }
  | .push list i => x.issue list (.push i) i
  | .insert list anchor i => x.issue list (.insert anchor i) i

def run (start : UInt32) (steps : List FamilyStep) : ListHistory :=
  steps.foldl step ⟨start, [], []⟩

end ListHistory

/-! ## §3  Lines and families -/

namespace FamilyEvent

def made : List FamilyEvent → Nat
  | [] => 0
  | created :: earlier | cloned _ :: earlier => made earlier + 1
  | issued .. :: earlier => made earlier

def founded : List FamilyEvent → Nat
  | [] => 0
  | created :: earlier => founded earlier + 1
  | cloned _ :: earlier | issued .. :: earlier => founded earlier

/-- The family of a list: a new list founds one, and a copy belongs to that of
its source. -/
def family : List FamilyEvent → Nat → Nat
  | [], _ => 0
  | created :: earlier, n =>
      if n = made earlier then founded earlier else family earlier n
  | cloned source :: earlier, n =>
      if n = made earlier then family earlier source else family earlier n
  | issued .. :: earlier, n => family earlier n

/-- What has been issued for a list: by its source before the list was copied
from it, then by itself. -/
def line : List FamilyEvent → Nat → List Entry
  | [], _ => []
  | created :: earlier, n => if n = made earlier then [] else line earlier n
  | cloned source :: earlier, n =>
      if n = made earlier then line earlier source else line earlier n
  | issued list h i :: earlier, n =>
      if n = list then line earlier n ++ [(h, i)] else line earlier n

end FamilyEvent

/-! ## §4  What is recorded -/

open FamilyEvent

def familyIdentity (start : UInt32) (family : Nat) : Nat :=
  (start + UInt32.ofNat family).toNat

/-- The events tell of all lists what they are: their number, their identities,
what they have issued. -/
structure ListHistory.Recorded (start : UInt32) (x : ListHistory) : Prop where
  next : x.next = start + UInt32.ofNat (founded x.events)
  length : x.lists.length = made x.events
  lists : ∀ n l, x.lists[n]? = some l →
    l.identity = familyIdentity start (family x.events n) ∧ l.ledger = line x.events n
  issued : ∀ n h i, .issued n h i ∈ x.events →
    n < made x.events ∧ (h, i) ∈ line x.events n

namespace ListHistory.Recorded

variable {start : UInt32} {x : ListHistory} {i : Instruction Handle}

theorem lt_made (hx : Recorded start x) {n : Nat} {l : InstructionList}
    (hl : x.lists[n]? = some l) : n < made x.events := by
  rw [← hx.length]
  exact (List.getElem?_eq_some_iff.mp hl).1

/-- A further list changes nothing for the others. -/
theorem append (hx : Recorded start x) {l : InstructionList} {e : FamilyEvent}
    {next : UInt32} (hmade : made (e :: x.events) = made x.events + 1)
    (hfamily : ∀ n, n < made x.events → family (e :: x.events) n = family x.events n)
    (hline : ∀ n, n < made x.events → line (e :: x.events) n = line x.events n)
    (hnext : next = start + UInt32.ofNat (founded (e :: x.events)))
    (hnew :
      l.identity = familyIdentity start (family (e :: x.events) (made x.events)) ∧
      l.ledger = line (e :: x.events) (made x.events))
    (hevent : ∀ n h i, e ≠ .issued n h i) :
    Recorded start ⟨next, x.lists ++ [l], e :: x.events⟩ := by
  refine ⟨hnext, ?_, ?_, ?_⟩
  · rw [List.length_append, List.length_singleton, hx.length, hmade]
  · intro n l' hl'
    rcases Nat.lt_trichotomy n x.lists.length with hlt | heq | hgt
    · rw [List.getElem?_append_left hlt] at hl'
      have hn := hx.lt_made hl'
      rw [hfamily n hn, hline n hn]
      exact hx.lists n l' hl'
    · subst heq
      rw [List.getElem?_concat_length, Option.some.injEq] at hl'
      rw [hx.length, ← hl']
      exact hnew
    · rw [List.getElem?_eq_none (by simpa using Nat.succ_le_of_lt hgt)] at hl'
      cases hl'
  · intro n h i hmem
    rcases List.mem_cons.mp hmem with heq | hmem
    · exact absurd heq.symm (hevent n h i)
    · obtain ⟨hn, hi⟩ := hx.issued n h i hmem
      exact ⟨by rw [hmade]; omega, hline n hn ▸ hi⟩

theorem getElem?_set (hx : Recorded start x) {n k : Nat} {l l' m : InstructionList}
    (hl : x.lists[n]? = some l) (hm : (x.lists.set n l')[k]? = some m) :
    k = n ∧ m = l' ∨ k ≠ n ∧ x.lists[k]? = some m := by
  have hin : n < x.lists.length := hx.length ▸ hx.lt_made hl
  rcases eq_or_ne k n with rfl | hne
  · rw [List.getElem?_set_self hin] at hm
    exact .inl ⟨rfl, (Option.some.inj hm).symm⟩
  · rw [List.getElem?_set_ne hne.symm] at hm
    exact .inr ⟨hne, hm⟩

/-- A list in the place of one with the same identity and ledger changes nothing. -/
theorem set_kept (hx : Recorded start x) {n : Nat} {l l' : InstructionList}
    (hl : x.lists[n]? = some l) (hidentity : l'.identity = l.identity)
    (hledger : l'.ledger = l.ledger) :
    Recorded start { x with lists := x.lists.set n l' } := by
  refine ⟨hx.next, by rw [List.length_set, hx.length], ?_, hx.issued⟩
  intro k m hm
  rcases hx.getElem?_set hl hm with ⟨rfl, rfl⟩ | ⟨-, hm⟩
  · rw [hidentity, hledger]
    exact hx.lists k l hl
  · exact hx.lists k m hm

/-- What is issued for a list goes into its line and into no other. -/
theorem set_issued (hx : Recorded start x) {n : Nat} {l l' : InstructionList}
    {h : Handle} (hl : x.lists[n]? = some l) (hidentity : l'.identity = l.identity)
    (hledger : l'.ledger = l.ledger ++ [(h, i)]) :
    Recorded start
      { x with lists := x.lists.set n l', events := .issued n h i :: x.events } := by
  refine ⟨hx.next, by rw [List.length_set, hx.length, made], ?_, ?_⟩
  · intro k m hm
    rcases hx.getElem?_set hl hm with ⟨rfl, rfl⟩ | ⟨hne, hm⟩
    · rw [hidentity, hledger, line, if_pos rfl, family]
      obtain ⟨hfamily, hline⟩ := hx.lists k l hl
      exact ⟨hfamily, by rw [hline]⟩
    · rw [line, if_neg hne]
      exact hx.lists k m hm
  · intro k h' j hmem
    have hgrows : line x.events k ⊆ line (.issued n h i :: x.events) k := by
      rw [line]
      split
      · exact List.subset_append_left _ _
      · exact List.Subset.refl _
    rcases List.mem_cons.mp hmem with heq | hmem
    · obtain ⟨rfl, rfl, rfl⟩ := FamilyEvent.issued.inj heq
      refine ⟨hx.lt_made hl, ?_⟩
      rw [line, if_pos rfl]
      exact List.mem_append_right _ List.mem_cons_self
    · obtain ⟨hk, hj⟩ := hx.issued k h' j hmem
      exact ⟨hk, hgrows hj⟩

theorem issue (hx : Recorded start x) (n : Nat) {e : ListEdit}
    (he : e = .push i ∨ ∃ anchor, e = .insert anchor i) :
    Recorded start (x.issue n e i) := by
  unfold ListHistory.issue
  split
  · exact hx
  rename_i l hl
  obtain ⟨hsame, ⟨h, hok, hissued⟩ | ⟨⟨cause, hfail⟩, hkept⟩⟩ := l.ledger_edit he
  · simp only [hok]
    exact hx.set_issued hl hsame hissued
  · simp only [hfail]
    exact hx.set_kept hl hsame hkept

theorem step (hx : Recorded start x) (s : FamilyStep) :
    Recorded start (x.step s) := by
  cases s with
  | create =>
    apply hx.append (e := .created) rfl
    · intro n hn
      rw [family, if_neg (Nat.ne_of_lt hn)]
    · intro n hn
      rw [line, if_neg (Nat.ne_of_lt hn)]
    · rw [hx.next, founded, UInt32.ofNat_add, UInt32.add_assoc]
      rfl
    · rw [family, if_pos rfl, line, if_pos rfl, familyIdentity, ← hx.next]
      exact ⟨rfl, rfl⟩
    · intro n h i
      exact nofun
  | clone source =>
    rw [ListHistory.step]
    split
    · exact hx
    rename_i l hl
    apply hx.append (e := .cloned source) rfl
    · intro n hn
      rw [family, if_neg (Nat.ne_of_lt hn)]
    · intro n hn
      rw [line, if_neg (Nat.ne_of_lt hn)]
    · rw [founded]
      exact hx.next
    · rw [family, if_pos rfl, line, if_pos rfl]
      exact hx.lists source l hl
    · intro n h i
      exact nofun
  | push n i => exact hx.issue n (.inl rfl)
  | insert n anchor i => exact hx.issue n (.inr ⟨anchor, rfl⟩)

end ListHistory.Recorded

namespace ListHistory

/-- Every history records what its lists are. -/
theorem recorded_run (start : UInt32) (steps : List FamilyStep) :
    Recorded start (run start steps) := by
  have hall : ∀ x, Recorded start x → Recorded start (steps.foldl step x) := by
    induction steps with
    | nil => exact fun x hx => hx
    | cons s steps ih => exact fun x hx => ih (x.step s) (hx.step s)
  apply hall
  refine ⟨?_, rfl, ?_, ?_⟩
  · simp [founded]
  · simp
  · simp

/-! ## §5  Handles -/

variable {start : UInt32} {x : ListHistory} {n : Nat}
  {l : InstructionList} {h : Handle}

theorem Recorded.contains_iff (hx : Recorded start x) (hl : x.lists[n]? = some l) :
    l.contains h = true ↔ ∃ i, (h, i) ∈ line x.events n := by
  simp only [← (hx.lists n l hl).2, mem_ledger, contains_iff_get?]

/-- A handle carries the identity of the family that it was issued in. -/
theorem Recorded.origin (hx : Recorded start x) {k : Nat} {i : Instruction Handle}
    (hissued : .issued k h i ∈ x.events) :
    h.origin = familyIdentity start (family x.events k) := by
  obtain ⟨hk, hmem⟩ := hx.issued k h i hissued
  obtain ⟨l, hl⟩ : ∃ l, x.lists[k]? = some l :=
    ⟨_, List.getElem?_eq_getElem (hx.length ▸ hk)⟩
  obtain ⟨hidentity, hledger⟩ := hx.lists k l hl
  rw [← hledger, mem_ledger] at hmem
  have hin := contains_of_get? hmem
  simp only [contains, Bool.and_eq_true, decide_eq_true_eq] at hin
  rw [hin.1, hidentity]

theorem familyIdentity_eq_iff {f g : Nat} :
    familyIdentity start f = familyIdentity start g ↔
      f % UInt32.size = g % UInt32.size := by
  rw [familyIdentity, familyIdentity, UInt32.toNat_inj, UInt32.add_right_inj,
    ← UInt32.toNat_inj, UInt32.toNat_ofNat', UInt32.toNat_ofNat']

/-- Whatever is done with any number of lists, a list contains the handles that
were issued in its line and no others, and finds under each the instruction that
it was issued for in that line. A handle that was issued for another list of its
family it contains exactly if its own line has come so far, and one that was
issued in another family it does not contain, if the two have different
identities. -/
theorem contains_iff_issued_in_line (start : UInt32) (steps : List FamilyStep)
    (n : Nat) (l : InstructionList) (hl : (run start steps).lists[n]? = some l) :
    (∀ h, l.contains h = true ↔ ∃ i, (h, i) ∈ line (run start steps).events n) ∧
    (∀ h i, (h, i) ∈ line (run start steps).events n → l.get? h = some i) ∧
    ∀ k h i, .issued k h i ∈ (run start steps).events →
      (h, i) ∈ line (run start steps).events k ∧
      (family (run start steps).events k = family (run start steps).events n →
        (l.contains h = true ↔ h.index < (line (run start steps).events n).length)) ∧
      (family (run start steps).events k % UInt32.size ≠
        family (run start steps).events n % UInt32.size →
        l.contains h = false) := by
  have hx := recorded_run start steps
  obtain ⟨hidentity, hledger⟩ := hx.lists n l hl
  refine ⟨fun h => hx.contains_iff hl, ?_, ?_⟩
  · intro h i hi
    rwa [← hledger, mem_ledger] at hi
  · intro k h i hissued
    have horigin := hx.origin hissued
    refine ⟨(hx.issued k h i hissued).2, ?_, ?_⟩
    · intro hsame
      have hown : h.origin = l.identity := by rw [horigin, hsame, hidentity]
      simp [contains, hown, ← hledger, length_ledger]
    · intro hother
      have hforeign : h.origin ≠ l.identity := by
        rw [horigin, hidentity]
        exact familyIdentity_eq_iff.not.mpr hother
      simp [contains, hforeign]

def sampleFamilies : List FamilyStep :=
  [.create, .push 0 ⟨.nop, .none⟩, .clone 0, .push 0 ⟨.ldnull, .none⟩,
    .insert 1 ⟨1, 0⟩ ⟨.ret, .none⟩, .create]

theorem events_sampleFamilies :
    (run 1 sampleFamilies).events =
      [.created, .issued 1 ⟨1, 1⟩ ⟨.ret, .none⟩, .issued 0 ⟨1, 1⟩ ⟨.ldnull, .none⟩,
        .cloned 0, .issued 0 ⟨1, 0⟩ ⟨.nop, .none⟩, .created] :=
  rfl

theorem contains_sampleFamilies :
    ∃ copy other : InstructionList, (run 1 sampleFamilies).lists[1]? = some copy ∧
      (run 1 sampleFamilies).lists[2]? = some other ∧
      copy.get? ⟨1, 0⟩ = some ⟨.nop, .none⟩ ∧ copy.get? ⟨1, 1⟩ = some ⟨.ret, .none⟩ ∧
      other.contains ⟨1, 0⟩ = false ∧ other.contains ⟨1, 1⟩ = false := by
  obtain ⟨copy, hcopy⟩ : ∃ l, (run 1 sampleFamilies).lists[1]? = some l := ⟨_, rfl⟩
  obtain ⟨other, hother⟩ : ∃ l, (run 1 sampleFamilies).lists[2]? = some l := ⟨_, rfl⟩
  obtain ⟨-, hfinds, -⟩ := contains_iff_issued_in_line 1 sampleFamilies 1 copy hcopy
  obtain ⟨-, -, hforeign⟩ :=
    contains_iff_issued_in_line 1 sampleFamilies 2 other hother
  rw [events_sampleFamilies] at hfinds hforeign
  refine ⟨copy, other, hcopy, hother, hfinds _ _ (by decide),
    hfinds _ _ (by decide), ?_, ?_⟩
  · exact (hforeign 0 ⟨1, 0⟩ ⟨.nop, .none⟩ (by decide)).2.2 (by decide)
  · exact (hforeign 0 ⟨1, 1⟩ ⟨.ldnull, .none⟩ (by decide)).2.2 (by decide)

/-- A list may contain a handle that was issued for another list after it was
copied, and then finds an instruction of its own under it. -/
theorem handle_of_copy_mistaken : ¬ ∀ (start : UInt32) (steps : List FamilyStep)
    (n k : Nat) (l : InstructionList) (h : Handle) (i : Instruction Handle),
    (run start steps).lists[n]? = some l →
    .issued k h i ∈ (run start steps).events →
    (l.contains h = true ↔ ∃ j, (h, j) ∈ line (run start steps).events n) ∧
      (l.contains h = true → l.get? h = some i) := by
  intro halways
  have hissued :
      .issued 0 ⟨1, 1⟩ ⟨.ldnull, .none⟩ ∈ (run 1 sampleFamilies).events := by
    rw [events_sampleFamilies]
    decide
  obtain ⟨-, hfinds⟩ :=
    halways 1 sampleFamilies 1 0 _ ⟨1, 1⟩ ⟨.ldnull, .none⟩ rfl hissued
  cases hfinds rfl

end ListHistory

end Instrumentation
