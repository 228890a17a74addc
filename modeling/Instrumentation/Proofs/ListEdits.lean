import Instrumentation.Proofs.ProgramOrder
import Mathlib.Data.List.Induction

/-!
# Edits of instruction lists

Whatever is done to an instruction list, it stays a plain sequence of entries:
to append, to put a block before an anchor and to assign are, on the sequence,
what their names say, with the answers that the list gives. Of that sequence the
list knows everything that can be asked for. Iteration yields it, the neighbours
lead through it forwards and backwards and then stop, the positions count it,
and lookup finds its instructions under their handles.

A handle is never taken back and never comes to denote something else, unless it
is assigned itself.

Sections: §1 edits · §2 edits of a sequence · §3 what represents a sequence · §4
one edit · §5 runs.
-/

namespace Instrumentation

open InstructionList

/-! ## §1  Edits -/

abbrev Entry : Type := Handle × Instruction Handle

inductive ListEdit where
  | push (i : Instruction Handle)
  | insert (anchor : Handle) (i : Instruction Handle)
  | insertAll (anchor : Handle) (block : List (Instruction Handle))
  | assign (h : Handle) (i : Instruction Handle)
deriving DecidableEq

/-- The handles that an edit issued, or why it failed. -/
abbrev EditAnswer : Type := Except BodyError (List Handle)

namespace InstructionList

def edit (l : InstructionList) : ListEdit → EditAnswer × InstructionList
  | .push i =>
    match l.push i with
    | .ok (h, l) => (.ok [h], l)
    | .error e => (.error e, l)
  | .insert anchor i => l.insertBefore anchor [i]
  | .insertAll anchor block => l.insertBefore anchor block
  | .assign h i =>
      (if l.contains h then .ok [] else .error (.unknownInstruction h), l.set h i)

/-- Makes edits one after the other, whether they fail or not. -/
def editAll (l : InstructionList) : List ListEdit → List EditAnswer × InstructionList
  | [] => ([], l)
  | e :: edits =>
    let (answer, l) := l.edit e
    let (answers, l) := l.editAll edits
    (answer :: answers, l)

end InstructionList

/-! ## §2  Edits of a sequence -/

namespace ListEdit

def numbered (identity issued : Nat) (block : List (Instruction Handle)) :
    List Entry :=
  ((List.range' issued block.length).map (Handle.mk identity)).zip block

def putBefore (anchor : Handle) (new es : List Entry) : List Entry :=
  es.flatMap fun e => if e.1 = anchor then new ++ [e] else [e]

def insertInto (identity : Nat) (es : List Entry) (anchor : Handle)
    (block : List (Instruction Handle)) : EditAnswer × List Entry :=
  if anchor ∈ es.map (·.1) then
    (.ok ((numbered identity es.length block).map (·.1)),
      putBefore anchor (numbered identity es.length block) es)
  else (.error (.unknownInstruction anchor), es)

/-- Makes an edit on a plain sequence, in which every handle that was issued
occurs once. -/
def onSequence (identity : Nat) (es : List Entry) : ListEdit → EditAnswer × List Entry
  | push i => (.ok [⟨identity, es.length⟩], es ++ [(⟨identity, es.length⟩, i)])
  | insert anchor i => insertInto identity es anchor [i]
  | insertAll anchor block => insertInto identity es anchor block
  | assign h i =>
    if h ∈ es.map (·.1) then (.ok [], es.map fun e => if e.1 = h then (h, i) else e)
    else (.error (.unknownInstruction h), es)

def allOnSequence (identity : Nat) (es : List Entry) :
    List ListEdit → List EditAnswer × List Entry
  | [] => ([], es)
  | e :: edits =>
    let (answer, es) := e.onSequence identity es
    let (answers, es) := allOnSequence identity es edits
    (answer :: answers, es)

def allIssued (answers : List EditAnswer) : List Handle :=
  answers.flatMap fun
    | .ok hs => hs
    | .error _ => []

end ListEdit

/-! ## §3  What represents a sequence -/

/-- The list is a sequence of entries for everyone who asks: iteration yields
the sequence; the neighbours lead through it from the first entry on and from
the last one back, and there end; its entries have the positions from nought on,
and no other handle has one; lookup finds exactly its entries. -/
structure InstructionList.Represents (l : InstructionList)
    (es : List Entry) : Prop where
  iterates : l.entries = es
  nodup : (es.map (·.1)).Nodup
  forwards : ∀ steps, es.length ≤ steps → chase l.next? steps l.first? = es.map (·.1)
  backwards : ∀ steps, es.length ≤ steps →
    chase l.prev? steps l.last? = (es.map (·.1)).reverse
  positions : (es.map (·.1)).map l.position? = (List.range es.length).map some
  elsewhere : ∀ h, h ∉ es.map (·.1) → l.position? h = none
  finds : ∀ h i, l.get? h = some i ↔ (h, i) ∈ es

namespace InstructionList

variable {l : InstructionList} {h : Handle}

theorem length_entries (l : InstructionList) : l.entries.length = l.size := by
  rw [← List.length_map (·.1), entries_map_fst, length_handles]

theorem map_position? (l : InstructionList) :
    l.handles.map l.position? = (List.range l.handles.length).map some := by
  refine List.ext_getElem (by simp) ?_
  intro p hp _
  simp only [List.getElem_map, List.getElem_range, position?_eq_some_iff]
  exact List.getElem?_eq_getElem _

theorem Represents.contains_iff {es : List Entry} (hl : l.Represents es) :
    l.contains h = true ↔ h ∈ es.map (·.1) := by
  rw [← hl.iterates, entries_map_fst, mem_handles]

/-- Every list represents its entries. -/
theorem represents_entries (l : InstructionList) : l.Represents l.entries where
  iterates := rfl
  nodup := l.nodup_entries_fst
  forwards := by
    intro steps hsteps
    rw [length_entries, ← length_handles] at hsteps
    rw [entries_map_fst, first?_eq_head?]
    exact chase_of_links (fun _ _ _ hsplit => next?_of_handles hsplit) [] rfl hsteps
  backwards := by
    intro steps hsteps
    rw [length_entries, ← length_handles] at hsteps
    rw [entries_map_fst, last?_eq_getLast?, ← List.head?_reverse]
    refine chase_of_links ?_ [] rfl (by simpa using hsteps)
    intro front h back hsplit
    have hsplit : l.handles = back.reverse ++ h :: front.reverse := by
      simpa using congrArg List.reverse hsplit
    rw [prev?_of_handles hsplit, List.getLast?_reverse]
  positions := by
    rw [length_entries, ← length_handles, entries_map_fst]
    exact l.map_position?
  elsewhere := by
    intro h hnot
    rw [entries_map_fst, mem_handles] at hnot
    simp [position?, hnot]
  finds := fun _ _ => mem_entries.symm

/-! ## §4  One edit -/

theorem push_of_room {i : Instruction Handle} (hroom : l.size < capacity) :
    l.push i = .ok (l.handle l.size, l.putAll none nofun [i]) := by
  have hsmall : l.arena.size < capacity := hroom
  rw [push, if_pos hsmall]
  rfl

theorem push_of_full {i : Instruction Handle} (hfull : ¬ l.size < capacity) :
    l.push i = .error .full := by
  have hfull : ¬ l.arena.size < capacity := hfull
  rw [push, if_neg hfull]

theorem entries_push {i : Instruction Handle} (hroom : l.size < capacity) :
    ∃ pushed, l.push i = .ok (l.handle l.size, pushed) ∧
      pushed.identity = l.identity ∧
      pushed.entries = l.entries ++ [(l.handle l.size, i)] := by
  refine ⟨_, push_of_room hroom, rfl, ?_⟩
  exact (entries_putAll (List.append_nil _).symm rfl).trans (List.append_nil _)

theorem set_handle (l : InstructionList) (index : Nat) (i : Instruction Handle) :
    l.set (l.handle index) i =
      ⟨l.identity, l.arena.set index i, l.linked.set index i⟩ :=
  if_pos rfl

theorem issued_set (l : InstructionList) {index n : Nat} (i : Instruction Handle)
    (hn : n < l.size) :
    (l.set (l.handle index) i).issued n = if n = index then i else l.issued n := by
  have hn : n < l.arena.size := hn
  rw [set_handle, issued, Arena.value?_set, issued]
  by_cases hindex : n = index
  · simp [hindex, hindex ▸ hn]
  · simp [hindex]

theorem identity_set (l : InstructionList) (h : Handle) (i : Instruction Handle) :
    (l.set h i).identity = l.identity := by
  unfold set
  split <;> rfl

theorem entries_set (l : InstructionList) (h : Handle) (i : Instruction Handle) :
    (l.set h i).entries = l.entries.map fun e => if e.1 = h then (h, i) else e := by
  obtain ⟨origin, index⟩ := h
  by_cases horigin : origin = l.identity
  · subst horigin
    have horder : (l.set (l.handle index) i).order = l.order := by
      rw [set_handle]
      exact (l.inOrder.set index i).order_eq
    change (l.set (l.handle index) i).entries = _
    rw [entries, horder, entries, List.map_map]
    refine List.map_congr_left ?_
    intro n hn
    rw [issued_set l i (mem_order.mp hn)]
    by_cases hindex : n = index <;> simp [handle, identity_set, hindex]
  · have hne : ∀ e ∈ l.entries, ¬ e.1 = ⟨origin, index⟩ := by
      intro e he heq
      have hin : e.1 ∈ l.entries.map (·.1) := List.mem_map_of_mem he
      rw [entries_map_fst, mem_handles, heq] at hin
      simp [contains, horigin] at hin
    rw [set, if_neg horigin]
    conv_lhs => rw [← List.map_id l.entries]
    refine List.map_congr_left ?_
    intro e he
    rw [if_neg (hne e he), id]

end InstructionList

namespace ListEdit

variable {l : InstructionList} {e : ListEdit} {anchor h : Handle}
  {i : Instruction Handle} {block : List (Instruction Handle)}
  {front back new es : List Entry}

/-- A block goes before the one entry of its anchor. -/
theorem putBefore_of_nodup
    (hnodup : ((front ++ (anchor, i) :: back).map (·.1)).Nodup) :
    putBefore anchor new (front ++ (anchor, i) :: back) =
      front ++ new ++ (anchor, i) :: back := by
  have hsame :
      ∀ es : List Entry, anchor ∉ es.map (·.1) → putBefore anchor new es = es := by
    intro es hnot
    refine Eq.trans ?_ (List.flatMap_singleton' es)
    refine List.flatMap_congr ?_
    intro e he
    rw [if_neg]
    rintro rfl
    exact hnot (List.mem_map_of_mem he)
  rw [List.map_append, List.map_cons, List.nodup_middle, List.nodup_cons,
    List.mem_append, not_or] at hnodup
  obtain ⟨⟨hfront, hback⟩, -⟩ := hnodup
  have hsplit : putBefore anchor new (front ++ (anchor, i) :: back) =
      putBefore anchor new front ++ (new ++ [(anchor, i)]) ++
        putBefore anchor new back := by
    simp [putBefore]
  rw [hsplit, hsame front hfront, hsame back hback]
  simp

theorem length_numbered (identity issued : Nat) (block : List (Instruction Handle)) :
    (numbered identity issued block).length = block.length := by
  simp [numbered]

theorem length_putBefore (new : List Entry) (hnodup : (es.map (·.1)).Nodup)
    (hin : anchor ∈ es.map (·.1)) :
    (putBefore anchor new es).length = es.length + new.length := by
  obtain ⟨⟨_, i⟩, he, rfl⟩ := List.mem_map.mp hin
  obtain ⟨front, back, rfl⟩ := List.append_of_mem he
  rw [putBefore_of_nodup hnodup]
  simp
  omega

theorem edit_insertion
    (hroom : (insertInto l.identity l.entries anchor block).2.length ≤ capacity) :
    (l.insertBefore anchor block).1 =
      (insertInto l.identity l.entries anchor block).1 ∧
      (l.insertBefore anchor block).2.entries =
        (insertInto l.identity l.entries anchor block).2 ∧
      (l.insertBefore anchor block).2.identity = l.identity := by
  have hmem : anchor ∈ l.entries.map (·.1) ↔ l.contains anchor = true := by
    rw [entries_map_fst, mem_handles]
  unfold insertInto at hroom ⊢
  by_cases hin : l.contains anchor = true
  · rw [if_pos (hmem.mpr hin)] at hroom ⊢
    have hlength := length_putBefore (numbered l.identity l.entries.length block)
      l.nodup_entries_fst (hmem.mpr hin)
    rw [length_numbered, length_entries] at hlength
    have hfits : block.length ≤ capacity - l.size := by
      simp only [hlength, length_entries] at hroom
      omega
    obtain ⟨p, hp, heq⟩ := insertBefore_of_contains hin block
    rw [heq, if_pos hfits, List.take_of_length_le hfits, length_entries]
    have hnew : numbered l.identity l.size block = (l.fresh block.length).zip block :=
      rfl
    refine ⟨?_, ?_, rfl⟩
    · rw [hnew, List.map_fst_zip (Nat.le_of_eq (length_fresh l block.length))]
    · obtain ⟨front, i, back, hb, hw⟩ := entries_insertAt block hp
      rw [hw, hb, hnew, putBefore_of_nodup (hb ▸ l.nodup_entries_fst)]
  · rw [if_neg (hmem.not.mpr hin)]
    rw [insertBefore, dif_neg hin]
    exact ⟨rfl, rfl, rfl⟩

/-- An edit of a list is the edit of the sequence that it represents, with the
same answer. -/
theorem edit_onSequence
    (hroom : (e.onSequence l.identity l.entries).2.length ≤ capacity) :
    (l.edit e).1 = (e.onSequence l.identity l.entries).1 ∧
      (l.edit e).2.entries = (e.onSequence l.identity l.entries).2 ∧
      (l.edit e).2.identity = l.identity := by
  cases e with
  | push i =>
      simp only [onSequence, List.length_append,
        List.length_singleton, length_entries] at hroom
      obtain ⟨pushed, hpush, hidentity, hentries⟩ :=
        entries_push (i := i) (by omega : l.size < capacity)
      simp only [edit, hpush, onSequence, length_entries]
      exact ⟨rfl, hentries, hidentity⟩
  | insert anchor i => exact edit_insertion hroom
  | insertAll anchor block => exact edit_insertion hroom
  | assign h i =>
      have hmem : h ∈ l.entries.map (·.1) ↔ l.contains h = true := by
        rw [entries_map_fst, mem_handles]
      refine ⟨?_, ?_, identity_set l h i⟩
      · simp only [edit, onSequence, hmem]
        split <;> rfl
      · simp only [edit, onSequence]
        rw [entries_set]
        split
        · rfl
        · rename_i hnot
          conv_rhs => rw [← List.map_id l.entries]
          refine List.map_congr_left ?_
          intro e he
          rw [if_neg, id]
          rintro rfl
          exact hnot (List.mem_map_of_mem he)

/-! ## §5  Runs -/

theorem length_le_onSequence (identity : Nat) (es : List Entry) (e : ListEdit) :
    es.length ≤ (e.onSequence identity es).2.length := by
  have hput : ∀ anchor new, es.length ≤ (putBefore anchor new es).length := by
    intro anchor new
    induction es with
    | nil => simp
    | cons x es ih =>
        rw [putBefore, List.flatMap_cons, List.length_append,
          ← putBefore, List.length_cons]
        split <;> simp <;> omega
  have hinsert :
      ∀ anchor block, es.length ≤ (insertInto identity es anchor block).2.length := by
    intro anchor block
    unfold insertInto
    split
    · exact hput _ _
    · exact Nat.le_refl _
  cases e with
  | push i => simp [onSequence]
  | insert anchor i => exact hinsert anchor [i]
  | insertAll anchor block => exact hinsert anchor block
  | assign h i =>
      simp only [onSequence]
      split <;> simp

theorem length_le_allOnSequence (identity : Nat) (es : List Entry)
    (edits : List ListEdit) :
    es.length ≤ (allOnSequence identity es edits).2.length := by
  induction edits generalizing es with
  | nil => exact Nat.le_refl _
  | cons e edits ih => exact Nat.le_trans (length_le_onSequence identity es e) (ih _)

/-- What one edit adds to the handles of a list is what it issues. -/
theorem handles_edit_perm
    (hroom : (e.onSequence l.identity l.entries).2.length ≤ capacity) :
    (l.edit e).2.handles.Perm (l.handles ++ allIssued [(l.edit e).1]) := by
  obtain ⟨hanswer, hentries, -⟩ := edit_onSequence hroom
  rw [← entries_map_fst, ← entries_map_fst, hentries, hanswer]
  have hinsert : ∀ anchor block,
      ((insertInto l.identity l.entries anchor block).2.map (·.1)).Perm
        (l.entries.map (·.1) ++
          allIssued [(insertInto l.identity l.entries anchor block).1]) := by
    intro anchor block
    unfold insertInto
    split
    · rename_i hin
      obtain ⟨⟨_, i⟩, he, rfl⟩ := List.mem_map.mp hin
      obtain ⟨front, back, hsplit⟩ := List.append_of_mem he
      have hnodup := l.nodup_entries_fst
      rw [hsplit] at hnodup ⊢
      rw [putBefore_of_nodup hnodup]
      simp only [allIssued, List.flatMap_cons, List.flatMap_nil, List.append_nil,
        List.map_append, List.append_assoc]
      exact (List.perm_append_comm).append_left _
    · simp [allIssued]
  cases e with
  | push i => simp [onSequence, allIssued]
  | insert anchor i => exact hinsert anchor [i]
  | insertAll anchor block => exact hinsert anchor block
  | assign h i =>
      have hkeys : (l.entries.map fun e => if e.1 = h then (h, i) else e).map (·.1) =
          l.entries.map (·.1) := by
        rw [List.map_map]
        refine List.map_congr_left ?_
        intro e _
        simp only [Function.comp_apply]
        split
        · rename_i heq
          exact heq.symm
        · rfl
      simp only [onSequence]
      split
      · simp [hkeys, allIssued]
      · simp [allIssued]

/-- One edit leaves every handle its instruction, except the one that it assigns. -/
theorem get?_edit (hroom : (e.onSequence l.identity l.entries).2.length ≤ capacity)
    (hi : l.get? h = some i) :
    (l.edit e).2.contains h = true ∧
      ((∀ j, e ≠ .assign h j) → (l.edit e).2.get? h = some i) := by
  have hin : h ∈ (l.edit e).2.handles := by
    rw [(handles_edit_perm hroom).mem_iff, List.mem_append, mem_handles]
    exact .inl (contains_of_get? hi)
  refine ⟨mem_handles.mp hin, ?_⟩
  intro hother
  rw [← mem_entries, (edit_onSequence hroom).2.1]
  have hold : (h, i) ∈ l.entries := mem_entries.mpr hi
  have hinsert :
      ∀ anchor block, (h, i) ∈ (insertInto l.identity l.entries anchor block).2 := by
    intro anchor block
    unfold insertInto
    split
    · rw [putBefore, List.mem_flatMap]
      refine ⟨(h, i), hold, ?_⟩
      split <;> simp
    · exact hold
  cases e with
  | push j => exact List.mem_append_left _ hold
  | insert anchor j => exact hinsert anchor [j]
  | insertAll anchor block => exact hinsert anchor block
  | assign k j =>
      have hne : h ≠ k := by
        rintro rfl
        exact hother j rfl
      simp only [onSequence]
      split
      · exact List.mem_map.mpr ⟨(h, i), hold, if_neg hne⟩
      · exact hold

end ListEdit

namespace InstructionList

open ListEdit

variable {l : InstructionList} {e : ListEdit} {edits : List ListEdit}

theorem room_of_cons
    (hroom : (allOnSequence l.identity l.entries (e :: edits)).2.length ≤ capacity) :
    (e.onSequence l.identity l.entries).2.length ≤ capacity ∧
      (allOnSequence (l.edit e).2.identity (l.edit e).2.entries edits).2.length ≤
        capacity := by
  have hfirst : (e.onSequence l.identity l.entries).2.length ≤ capacity :=
    Nat.le_trans (length_le_allOnSequence _ _ edits) hroom
  obtain ⟨-, hentries, hidentity⟩ := edit_onSequence hfirst
  refine ⟨hfirst, ?_⟩
  rw [hentries, hidentity]
  exact hroom

theorem editAll_onSequence
    (hroom : (allOnSequence l.identity l.entries edits).2.length ≤ capacity) :
    (l.editAll edits).1 = (allOnSequence l.identity l.entries edits).1 ∧
      (l.editAll edits).2.entries = (allOnSequence l.identity l.entries edits).2 := by
  -- by induction on the edits: the list goes on representing the sequence
  induction edits generalizing l with
  | nil => exact ⟨rfl, rfl⟩
  | cons e edits ih =>
      obtain ⟨hfirst, hrest⟩ := room_of_cons hroom
      obtain ⟨hanswer, hentries, hidentity⟩ := edit_onSequence hfirst
      obtain ⟨hanswers, hlater⟩ := ih hrest
      rw [hentries, hidentity] at hanswers hlater
      refine ⟨?_, hlater⟩
      simp only [editAll, allOnSequence, hanswer, hanswers]

theorem handles_editAll_perm
    (hroom : (allOnSequence l.identity l.entries edits).2.length ≤ capacity) :
    (l.editAll edits).2.handles.Perm
      (l.handles ++ allIssued (l.editAll edits).1) := by
  induction edits generalizing l with
  | nil => simp [editAll, allIssued]
  | cons e edits ih =>
      obtain ⟨hfirst, hrest⟩ := room_of_cons hroom
      have hcons : allIssued (l.editAll (e :: edits)).1 =
          allIssued [(l.edit e).1] ++ allIssued ((l.edit e).2.editAll edits).1 := by
        simp [editAll, allIssued]
      rw [hcons, ← List.append_assoc]
      exact (ih hrest).trans ((handles_edit_perm hfirst).append_right _)

theorem get?_editAll {h : Handle} {i : Instruction Handle}
    (hroom : (allOnSequence l.identity l.entries edits).2.length ≤ capacity)
    (hi : l.get? h = some i) :
    (l.editAll edits).2.contains h = true ∧
      ((∀ j, ListEdit.assign h j ∉ edits) → (l.editAll edits).2.get? h = some i) := by
  induction edits generalizing l i with
  | nil => exact ⟨contains_of_get? hi, fun _ => hi⟩
  | cons e edits ih =>
      obtain ⟨hfirst, hrest⟩ := room_of_cons hroom
      obtain ⟨hin, hsame⟩ := get?_edit hfirst hi
      obtain ⟨k, hk⟩ := contains_iff_get?.mp hin
      refine ⟨(ih hrest hk).1, ?_⟩
      intro hother
      refine (ih hrest (hsame ?_)).2 ?_
      · rintro j rfl
        exact hother j List.mem_cons_self
      · exact fun j hj => hother j (List.mem_cons_of_mem _ hj)

theorem editAll_append (l : InstructionList) (earlier later : List ListEdit) :
    (l.editAll (earlier ++ later)).2 = ((l.editAll earlier).2.editAll later).2 := by
  induction earlier generalizing l with
  | nil => rfl
  | cons e earlier ih => exact ih _

theorem room_of_append {earlier later : List ListEdit}
    (hroom :
      (allOnSequence l.identity l.entries (earlier ++ later)).2.length ≤ capacity) :
    (allOnSequence (l.editAll earlier).2.identity
      (l.editAll earlier).2.entries later).2.length ≤
      capacity := by
  induction earlier generalizing l with
  | nil => exact hroom
  | cons e earlier ih => exact ih (room_of_cons hroom).2

/-- A list that edits have made of the empty one represents the sequence that
the same edits make of the empty sequence, and they gave the same answers. Its
handles are those that were issued, each once. Every one of them has gone on
denoting its instruction from any earlier moment on, unless it was itself
assigned since. A block whose anchor is not in the list is refused and changes
nothing. -/
theorem editAll_refines_sequence (identity : Nat) (edits : List ListEdit)
    (hroom : (allOnSequence identity [] edits).2.length ≤ capacity) :
    ∃ answers l es, (empty identity).editAll edits = (answers, l) ∧
      allOnSequence identity [] edits = (answers, es) ∧ l.Represents es ∧
      (es.map (·.1)).Perm (allIssued answers) ∧
      (∀ earlier later, edits = earlier ++ later →
        ∀ h i, ((empty identity).editAll earlier).2.get? h = some i →
          l.contains h = true ∧ ((∀ j, ListEdit.assign h j ∉ later) →
            l.get? h = some i)) ∧
      ∀ anchor block, anchor ∉ es.map (·.1) →
        l.insertBefore anchor block = (.error (.unknownInstruction anchor), l) := by
  have hstart : (empty identity).entries = [] := rfl
  have hroom : (allOnSequence (empty identity).identity
      (empty identity).entries edits).2.length ≤ capacity :=
    hroom
  obtain ⟨hanswers, hentries⟩ := editAll_onSequence hroom
  have hrepresents := represents_entries ((empty identity).editAll edits).2
  rw [hentries] at hrepresents
  refine ⟨_, _, _, rfl, Prod.ext hanswers.symm rfl, hrepresents, ?_, ?_, ?_⟩
  · have hperm := handles_editAll_perm hroom
    rw [← entries_map_fst, ← entries_map_fst, hentries, hstart,
      List.map_nil, List.nil_append] at hperm
    exact hperm
  · rintro earlier later rfl h i hi
    rw [editAll_append]
    exact get?_editAll (room_of_append hroom) hi
  · intro anchor block hnot
    rw [insertBefore, dif_neg (hrepresents.contains_iff.not.mpr hnot)]

end InstructionList

/-- Two instructions, a block before the second, one before the first, an anchor
of another list, and a new operand for the first instruction. -/
def sampleEdits : List ListEdit :=
  [.push (.ldarg 1), .push ⟨.ret, .none⟩,
    .insertAll ⟨1, 1⟩ [⟨.dup, .none⟩, ⟨.pop, .none⟩], .insert ⟨1, 0⟩ ⟨.nop, .none⟩,
    .insert ⟨2, 0⟩ ⟨.nop, .none⟩, .assign ⟨1, 0⟩ (.ldarg 2)]

theorem editAll_sampleEdits :
    (ListEdit.allOnSequence 1 [] sampleEdits).2.length ≤ capacity ∧
    ∃ answers l, (empty 1).editAll sampleEdits = (answers, l) ∧
      answers = [.ok [⟨1, 0⟩], .ok [⟨1, 1⟩], .ok [⟨1, 2⟩, ⟨1, 3⟩], .ok [⟨1, 4⟩],
        .error (.unknownInstruction ⟨2, 0⟩), .ok []] ∧
      l.Represents [(⟨1, 4⟩, ⟨.nop, .none⟩), (⟨1, 0⟩, .ldarg 2),
        (⟨1, 2⟩, ⟨.dup, .none⟩),
        (⟨1, 3⟩, ⟨.pop, .none⟩), (⟨1, 1⟩, ⟨.ret, .none⟩)] := by
  have hroom : (ListEdit.allOnSequence 1 [] sampleEdits).2.length ≤ capacity := by
    decide
  obtain ⟨answers, l, es, hrun, hsequence, hrepresents, -⟩ :=
    editAll_refines_sequence 1 sampleEdits hroom
  obtain ⟨rfl, rfl⟩ := Prod.mk.inj hsequence
  exact ⟨hroom, _, l, hrun, rfl, hrepresents⟩

end Instrumentation
