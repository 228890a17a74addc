import Instrumentation.Body
import Mathlib.Data.List.Nodup

/-!
# Instruction lists as sequences

An instruction list is read as the sequence of its entries, handles with their
instructions, in program order. No handle occurs twice, so lookup, the
neighbours of an instruction and its position are all facts about that one
sequence, and an insertion is the sequence with a block put before one entry.

Sections: §1 handles · §2 lookup · §3 neighbours · §4 insertion · §5 lists of
given instructions.
-/

namespace Instrumentation.InstructionList

variable {l : InstructionList} {h k : Handle} {i : Instruction Handle} {n : Nat}

/-! ## §1  Handles -/

theorem inOrder (l : InstructionList) : l.arena.InOrder l.order := l.linked.inOrder

theorem length_order (l : InstructionList) : l.order.length = l.size :=
  l.inOrder.length

theorem mem_order : n ∈ l.order ↔ n < l.size := l.inOrder.mem_iff

theorem handle_injective (l : InstructionList) : Function.Injective l.handle := by
  intro m n hmn
  exact (Handle.mk.injEq .. ▸ hmn).2

theorem nodup_handles (l : InstructionList) : l.handles.Nodup :=
  l.inOrder.nodup.map l.handle_injective

theorem length_handles (l : InstructionList) : l.handles.length = l.size := by
  simpa [handles] using l.length_order

theorem mem_handles : h ∈ l.handles ↔ l.contains h = true := by
  obtain ⟨origin, index⟩ := h
  simp only [handles, List.mem_map, mem_order, handle, Handle.mk.injEq, contains,
    Bool.and_eq_true, decide_eq_true_eq]
  constructor
  · rintro ⟨n, hn, rfl, rfl⟩
    exact ⟨rfl, hn⟩
  · rintro ⟨rfl, hn⟩
    exact ⟨index, hn, rfl, rfl⟩

/-! ## §2  Lookup -/

theorem entries_map_fst (l : InstructionList) : l.entries.map (·.1) = l.handles := by
  simp [entries, handles]

theorem entries_map_snd (l : InstructionList) : l.entries.map (·.2) = l.code := by
  simp [entries, code]

theorem nodup_entries_fst (l : InstructionList) : (l.entries.map (·.1)).Nodup := by
  rw [entries_map_fst]
  exact l.nodup_handles

theorem value?_eq_some (hn : n < l.size) : l.arena.value? n = some (l.issued n) := by
  rw [issued, Arena.value?, Array.getElem?_eq_getElem hn]
  rfl

theorem lt_size_of_value? (hi : l.arena.value? n = some i) : n < l.size := by
  obtain ⟨x, hx, -⟩ := Option.map_eq_some_iff.mp hi
  exact (Array.getElem?_eq_some_iff.mp hx).1

theorem mem_entries : (h, i) ∈ l.entries ↔ l.get? h = some i := by
  obtain ⟨origin, index⟩ := h
  simp only [entries, List.mem_map, mem_order, handle, Prod.mk.injEq,
    Handle.mk.injEq, get?]
  constructor
  · rintro ⟨n, hn, ⟨rfl, rfl⟩, rfl⟩
    rw [if_pos rfl, value?_eq_some hn]
  · intro hget
    split at hget
    · rename_i horigin
      refine ⟨index, lt_size_of_value? hget, ⟨horigin.symm, rfl⟩, ?_⟩
      rw [issued, hget]
      rfl
    · simp at hget

theorem contains_iff_get? : l.contains h = true ↔ ∃ i, l.get? h = some i := by
  rw [← mem_handles, ← entries_map_fst, List.mem_map]
  constructor
  · rintro ⟨⟨_, i⟩, he, rfl⟩
    exact ⟨i, mem_entries.mp he⟩
  · rintro ⟨i, hi⟩
    exact ⟨(h, i), mem_entries.mpr hi, rfl⟩

theorem contains_of_get? (hget : l.get? h = some i) : l.contains h = true :=
  contains_iff_get?.mpr ⟨i, hget⟩

theorem getElem?_code {p : Nat} (hp : l.handles[p]? = some h) :
    l.get? h = l.code[p]? := by
  rw [← entries_map_fst, List.getElem?_map, Option.map_eq_some_iff] at hp
  obtain ⟨⟨_, i⟩, he, rfl⟩ := hp
  rw [← entries_map_snd, List.getElem?_map, he]
  exact mem_entries.mp (List.mem_of_getElem? he)

theorem length_code (l : InstructionList) : l.code.length = l.size := by
  simpa [code] using l.length_order

/-! ## §3  Neighbours -/

theorem position?_eq_some_iff {p : Nat} :
    l.position? h = some p ↔ l.handles[p]? = some h := by
  constructor
  · intro hp
    rw [position?_eq] at hp
    split at hp
    · rename_i hin
      obtain ⟨hlt, hval, -⟩ := List.idxOf?_eq_some_iff.mp hp
      have horigin : h.origin = l.identity := by simp_all [contains]
      rw [handles, List.getElem?_map, List.getElem?_eq_getElem hlt, hval,
        Option.map_some, handle, ← horigin]
    · simp at hp
  · intro hp
    have hin : l.contains h = true := mem_handles.mp (List.mem_of_getElem? hp)
    rw [handles, List.getElem?_map, Option.map_eq_some_iff] at hp
    obtain ⟨n, hn, rfl⟩ := hp
    obtain ⟨hlt, hval⟩ := List.getElem?_eq_some_iff.mp hn
    rw [position?_eq, if_pos hin, List.idxOf?_eq_some_iff]
    refine ⟨hlt, hval, ?_⟩
    intro q hq heq
    exact absurd (l.inOrder.nodup.getElem_inj_iff.mp (heq.trans hval.symm)) (by omega)

theorem exists_position? (hin : l.contains h = true) :
    ∃ p, l.position? h = some p := by
  obtain ⟨p, hp⟩ := List.mem_iff_getElem?.mp (mem_handles.mpr hin)
  exact ⟨p, position?_eq_some_iff.mpr hp⟩

theorem getElem?_order {p : Nat} (hp : l.position? h = some p) :
    l.order[p]? = some h.index := by
  rw [position?_eq_some_iff, handles, List.getElem?_map, Option.map_eq_some_iff] at hp
  obtain ⟨n, hn, rfl⟩ := hp
  exact hn

theorem handleAt?_eq (p : Nat) : l.handleAt? p = l.handles[p]? := by
  simp [handleAt?, handles]

theorem first?_eq_head? (l : InstructionList) : l.first? = l.handles.head? := by
  rw [first?, l.inOrder.head, handles, List.head?_map]

theorem last?_eq_getLast? (l : InstructionList) : l.last? = l.handles.getLast? := by
  rw [last?, l.inOrder.tail, handles, List.getLast?_map]

section

variable {front back : List Handle}

/-- The links of an instruction lead to those that it stands between. -/
theorem links_of_handles (hsplit : l.handles = front ++ h :: back) :
    l.prev? h = front.getLast? ∧ l.next? h = back.head? := by
  obtain ⟨before, rest, horder, rfl, hrest⟩ := List.map_eq_append_iff.mp hsplit
  obtain ⟨n, after, rfl, rfl, rfl⟩ := List.map_eq_cons_iff.mp hrest
  obtain ⟨hprev, hnext⟩ := l.inOrder.links before n after horder
  simp [prev?, next?, handle, hprev, hnext, List.getLast?_map]

theorem next?_of_handles (hsplit : l.handles = front ++ h :: back) :
    l.next? h = back.head? :=
  (links_of_handles hsplit).2

theorem prev?_of_handles (hsplit : l.handles = front ++ h :: back) :
    l.prev? h = front.getLast? :=
  (links_of_handles hsplit).1

end

theorem next?_of_getElem? {p : Nat} (hp : l.handles[p]? = some h) :
    l.next? h = l.handles[p + 1]? := by
  obtain ⟨hlt, rfl⟩ := List.getElem?_eq_some_iff.mp hp
  have hsplit :
      l.handles = l.handles.take p ++ l.handles[p] :: l.handles.drop (p + 1) := by
    rw [← List.drop_eq_getElem_cons hlt, List.take_append_drop]
  rw [next?_of_handles hsplit, List.head?_drop]

theorem contains_of_next? (hnext : l.next? h = some k) : l.contains h = true := by
  unfold next? at hnext
  split at hnext
  · rename_i horigin
    obtain ⟨m, hm, -⟩ := Option.map_eq_some_iff.mp hnext
    obtain ⟨x, hx, -⟩ := Option.bind_eq_some_iff.mp hm
    have hlt : h.index < l.size := (Array.getElem?_eq_some_iff.mp hx).1
    simp [contains, horigin, hlt]
  · simp at hnext

/-- Two instructions are neighbours when their handles stand side by side. -/
theorem next?_eq_some_iff : l.next? h = some k ↔ [h, k] <:+: l.handles := by
  constructor
  · intro hnext
    obtain ⟨front, back, hsplit⟩ :=
      List.append_of_mem (mem_handles.mpr (contains_of_next? hnext))
    rw [next?_of_handles hsplit, List.head?_eq_some_iff] at hnext
    obtain ⟨back, rfl⟩ := hnext
    exact ⟨front, back, by simpa using hsplit.symm⟩
  · rintro ⟨front, back, hsplit⟩
    have hsplit : l.handles = front ++ h :: k :: back := by simpa using hsplit.symm
    exact next?_of_handles hsplit

theorem next?_eq_none_iff (hin : l.contains h = true) :
    l.next? h = none ↔ l.handles.getLast? = some h := by
  obtain ⟨front, back, hsplit⟩ := List.append_of_mem (mem_handles.mpr hin)
  have hnodup := l.nodup_handles
  rw [next?_of_handles hsplit, hsplit]
  rw [hsplit] at hnodup
  cases back with
  | nil => simp
  | cons k back =>
      have hnot : h ∉ k :: back :=
        (List.nodup_cons.mp (List.nodup_append.mp hnodup).2.1).1
      have hlast : (front ++ h :: k :: back).getLast? = (k :: back).getLast? := by
        simp [List.getLast?_cons]
      rw [hlast]
      simp only [List.head?_cons, reduceCtorEq, false_iff]
      exact fun h => hnot (List.mem_of_getLast? h)

/-- No two instructions have the same one after them. -/
theorem next?_injective {h' : Handle} (hnext : l.next? h = some k)
    (hnext' : l.next? h' = some k) : h = h' := by
  -- the one before it is the same for both
  have hprev : ∀ {h : Handle}, l.next? h = some k → l.prev? k = some h := by
    intro h hnext
    obtain ⟨front, back, hsplit⟩ := next?_eq_some_iff.mp hnext
    have hsplit : l.handles = (front ++ [h]) ++ k :: back := by
      simpa using hsplit.symm
    rw [prev?_of_handles hsplit, List.getLast?_concat]
  exact Option.some.inj ((hprev hnext).symm.trans (hprev hnext'))

/-! ## §4  Insertion -/

def fresh (l : InstructionList) (count : Nat) : List Handle :=
  (List.range' l.size count).map l.handle

theorem length_fresh (l : InstructionList) (count : Nat) :
    (l.fresh count).length = count := by
  simp [fresh]

theorem not_contains_of_mem_fresh {count : Nat} (hh : h ∈ l.fresh count) :
    l.contains h = false := by
  obtain ⟨n, hn, rfl⟩ := List.mem_map.mp hh
  have hge : ¬ n < l.size := Nat.not_lt.mpr (List.mem_range'_1.mp hn).1
  simp [contains, handle, hge]

section

variable {before? : Option Nat} {hbefore : ∀ m ∈ before?, m < l.size}
  {block : List (Instruction Handle)}

@[simp]
theorem size_putAll : (l.putAll before? hbefore block).size = l.size + block.length :=
  Arena.size_putAll ..

theorem value?_putAll (n : Nat) :
    (l.putAll before? hbefore block).arena.value? n =
      if n < l.size then l.arena.value? n else block[n - l.size]? :=
  Arena.value?_putAll ..

/-- A handle goes on denoting its instruction. -/
theorem get?_putAll (hi : l.get? h = some i) :
    (l.putAll before? hbefore block).get? h = some i := by
  unfold get? at hi ⊢
  split at hi
  · rename_i horigin
    rw [if_pos (show h.origin = (l.putAll before? hbefore block).identity
      from horigin), value?_putAll, if_pos (lt_size_of_value? hi), hi]
  · simp at hi

theorem issued_putAll_of_lt (hn : n < l.size) :
    (l.putAll before? hbefore block).issued n = l.issued n := by
  rw [issued, value?_putAll, if_pos hn, issued]

/-- The instructions of a block under their new handles, in order. -/
theorem entries_fresh (l : InstructionList) (hbefore : ∀ m ∈ before?, m < l.size) :
    (List.range' l.size block.length).map
        (fun n => (l.handle n, (l.putAll before? hbefore block).issued n)) =
          (l.fresh block.length).zip block := by
  apply List.ext_getElem
  · simp [fresh]
  · intro n hn hn'
    simp only [List.length_map, List.length_range'] at hn
    have hge : ¬ l.size + n < l.size := by omega
    simp [fresh, issued, value?_putAll, hn, hge]

/-- A block goes in, in order and in one piece, where it is to go. -/
theorem entries_putAll {front back : List (Handle × Instruction Handle)}
    (hsplit : l.entries = front ++ back)
    (hback : before? = back.head?.map (·.1.index)) :
    (l.putAll before? hbefore block).entries =
      front ++ (l.fresh block.length).zip block ++ back := by
  obtain ⟨before, after, hold, rfl, rfl⟩ := List.map_eq_append_iff.mp hsplit
  obtain rfl : before? = after.head? := by
    rw [hback, List.head?_map, Option.map_map]
    exact Option.map_id' ..
  have hinOrder := l.inOrder
  rw [hold] at hinOrder
  have horder : (l.putAll after.head? hbefore block).order =
      before ++ List.range' l.size block.length ++ after :=
    (hinOrder.putAll block).order_eq
  -- what was issued before keeps its instruction, so the two parts of the order
  -- read as they did
  have hkeep : ∀ ns : List Nat, ns ⊆ l.order →
      ns.map (fun n => (l.handle n, (l.putAll after.head? hbefore block).issued n)) =
        ns.map (fun n => (l.handle n, l.issued n)) := by
    intro ns hns
    refine List.map_congr_left ?_
    intro n hn
    rw [issued_putAll_of_lt (mem_order.mp (hns hn))]
  rw [← hkeep before (hold ▸ List.subset_append_left _ _),
    ← hkeep after (hold ▸ List.subset_append_right _ _), ← l.entries_fresh hbefore,
    ← List.map_append, ← List.map_append, ← horder]
  rfl

end

def insertAt (l : InstructionList) (p : Nat) (block : List (Instruction Handle)) :
    InstructionList :=
  l.putAll l.order[p]? (fun _ hm => mem_order.mp (List.mem_of_getElem? hm)) block

theorem insertBefore_of_contains {anchor : Handle} (hin : l.contains anchor = true)
    (block : List (Instruction Handle)) :
    ∃ p, l.position? anchor = some p ∧ l.insertBefore anchor block =
      (if block.length ≤ capacity - l.size then .ok (l.fresh block.length)
        else .error .full,
        l.insertAt p (block.take (capacity - l.size))) := by
  obtain ⟨p, hposition⟩ := exists_position? hin
  have hfits : (block.take (capacity - l.size)).length = block.length ↔
      block.length ≤ capacity - l.size := by
    rw [List.length_take]
    omega
  refine ⟨p, hposition, ?_⟩
  rw [insertBefore, dif_pos hin]
  simp only [hfits, fresh, insertAt, getElem?_order hposition]

@[simp]
theorem size_insertAt (l : InstructionList) (p : Nat)
    (block : List (Instruction Handle)) :
    (l.insertAt p block).size = l.size + block.length :=
  size_putAll

/-- A handle goes on denoting its instruction. -/
theorem get?_insertAt {p : Nat} {block : List (Instruction Handle)}
    (hi : l.get? h = some i) : (l.insertAt p block).get? h = some i :=
  get?_putAll hi

/-- An insertion puts its block, in order, immediately before the entry of its
anchor. -/
theorem entries_insertAt {p : Nat} {anchor : Handle}
    (block : List (Instruction Handle)) (hp : l.position? anchor = some p) :
    ∃ front i back, l.entries = front ++ (anchor, i) :: back ∧
      (l.insertAt p block).entries =
        front ++ (l.fresh block.length).zip block ++ (anchor, i) :: back := by
  have hkey : (l.entries.map (·.1))[p]? = some anchor := by
    rw [entries_map_fst]
    exact position?_eq_some_iff.mp hp
  rw [List.getElem?_map, Option.map_eq_some_iff] at hkey
  obtain ⟨⟨_, i⟩, hat, rfl⟩ := hkey
  obtain ⟨hlt, hval⟩ := List.getElem?_eq_some_iff.mp hat
  have hsplit :
      l.entries = l.entries.take p ++ l.entries[p] :: l.entries.drop (p + 1) := by
    rw [← List.drop_eq_getElem_cons hlt, List.take_append_drop]
  rw [hval] at hsplit
  exact ⟨_, i, _, hsplit, entries_putAll hsplit (getElem?_order hp)⟩

/-! ## §5  Lists of given instructions -/

section

variable {identity : Nat} {code : List (Instruction Handle)}

@[simp] theorem size_ofList : (ofList identity code).size = code.length := by
  rw [ofList, size_putAll]
  exact Nat.zero_add _

theorem get?_ofList :
    (ofList identity code).get? h =
      if h.origin = identity then code[h.index]? else none := by
  rw [ofList, get?, value?_putAll]
  rfl

theorem handles_ofList :
    (ofList identity code).handles =
      (List.range code.length).map (Handle.mk identity) := by
  have hentries : (ofList identity code).entries =
      [] ++ ((empty identity).fresh code.length).zip code ++ [] :=
    entries_putAll rfl rfl
  rw [← entries_map_fst, hentries, List.nil_append, List.append_nil,
    List.map_fst_zip (Nat.le_of_eq (length_fresh ..)), List.range_eq_range']
  rfl

theorem code_ofList : (ofList identity code).code = code := by
  refine List.ext_getElem? fun p => ?_
  by_cases hp : p < code.length
  · have hhandle : (ofList identity code).handles[p]? = some ⟨identity, p⟩ := by
      simp [handles_ofList, hp]
    rw [← getElem?_code hhandle, get?_ofList, if_pos rfl]
  · have hlength : (ofList identity code).code.length = code.length := by
      simp [length_code]
    rw [List.getElem?_eq_none (by omega), List.getElem?_eq_none (by omega)]

/-- The instructions follow each other in the order they were given in. -/
theorem next?_ofList {n : Nat} (hn : n < code.length) :
    (ofList identity code).next? ⟨identity, n⟩ =
    if n + 1 < code.length then some ⟨identity, n + 1⟩ else none := by
  have hhandle : (ofList identity code).handles[n]? = some ⟨identity, n⟩ := by
    simp [handles_ofList, hn]
  rw [next?_of_getElem? hhandle, handles_ofList]
  split
  · rename_i hlt
    simp [hlt]
  · rename_i hge
    simp [hge]

end

end Instrumentation.InstructionList
