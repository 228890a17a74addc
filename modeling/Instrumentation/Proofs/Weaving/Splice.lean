import Instrumentation.Proofs.Flow.Run
import Instrumentation.Proofs.Weaving.PlainCode

/-!
# Spliced bodies

One body is another with a block of plain instructions put immediately before
one of its instructions, the anchor. Every old handle keeps its instruction, and
no old instruction names a new one; so control comes to the block in one way
only, by going on from the instruction before the anchor, and leaves it by going
on to the anchor.

Sections: §1 splices · §2 lookup · §3 neighbours · §4 links.
-/

namespace Instrumentation

open InstructionList

/-! ## §1  Splices -/

/-- `w` is `b` with a block of new plain instructions immediately before an
anchor. -/
structure Splice (b w : Body) (anchor : Handle)
    (block : List (Handle × Instruction Handle)) : Prop where
  placed : ∃ front i back, b.instructions.entries = front ++ (anchor, i) :: back ∧
    w.instructions.entries = front ++ block ++ (anchor, i) :: back
  handlers : w.handlers = b.handlers
  plain : ∀ e ∈ block, e.2.IsPlain

namespace Splice

variable {b w : Body} {anchor h k : Handle}
  {block : List (Handle × Instruction Handle)} {i : Instruction Handle}

/-! ## §2  Lookup -/

theorem get?_iff (hs : Splice b w anchor block) :
    w.instructions.get? h = some i ↔
      b.instructions.get? h = some i ∨ (h, i) ∈ block := by
  obtain ⟨front, j, back, hb, hw⟩ := hs.placed
  simp only [← mem_entries, hb, hw, List.mem_append, List.mem_cons]
  tauto

theorem get?_old (hs : Splice b w anchor block)
    (hi : b.instructions.get? h = some i) : w.instructions.get? h = some i :=
  hs.get?_iff.mpr (.inl hi)

theorem get?_new (hs : Splice b w anchor block) (hi : (h, i) ∈ block) :
    w.instructions.get? h = some i :=
  hs.get?_iff.mpr (.inr hi)

theorem contains_old (hs : Splice b w anchor block)
    (hin : b.instructions.contains h = true) :
    w.instructions.contains h = true := by
  obtain ⟨i, hi⟩ := contains_iff_get?.mp hin
  exact contains_of_get? (hs.get?_old hi)

theorem exists_handles (hs : Splice b w anchor block) :
    ∃ front back, b.instructions.handles = front ++ anchor :: back ∧
      w.instructions.handles = front ++ (block.map (·.1) ++ anchor :: back) := by
  obtain ⟨front, i, back, hb, hw⟩ := hs.placed
  refine ⟨front.map (·.1), back.map (·.1), ?_, ?_⟩
  · simp [← entries_map_fst, hb]
  · simp [← entries_map_fst, hw]

theorem contains_anchor (hs : Splice b w anchor block) :
    b.instructions.contains anchor = true := by
  obtain ⟨front, back, hb, -⟩ := hs.exists_handles
  rw [← mem_handles, hb]
  simp

/-- No handle of the block is an old one. -/
theorem new (hs : Splice b w anchor block) (hi : (h, i) ∈ block) :
    b.instructions.contains h = false := by
  obtain ⟨front, back, hb, hw⟩ := hs.exists_handles
  have hnd := w.instructions.nodup_handles
  have hmem : h ∈ block.map (·.1) := List.mem_map_of_mem (f := (·.1)) hi
  rw [Bool.eq_false_iff]
  intro hin
  rw [← mem_handles, hb] at hin
  rw [hw] at hnd
  rcases List.mem_append.mp hin with hfront | hback
  · exact List.disjoint_of_nodup_append hnd hfront (List.mem_append_left _ hmem)
  · exact List.disjoint_of_nodup_append (List.nodup_append.mp hnd).2.1 hmem hback

theorem nodup_block (hs : Splice b w anchor block) : (block.map (·.1)).Nodup := by
  obtain ⟨front, back, -, hw⟩ := hs.exists_handles
  have hnd := w.instructions.nodup_handles
  rw [hw] at hnd
  exact (List.nodup_append.mp (List.nodup_append.mp hnd).2.1).1

/-! ## §3  Neighbours -/

/-- Where control stands when it has the rest of the block before it and then
the anchor. -/
def entrance (anchor : Handle) (rest : List (Handle × Instruction Handle)) : Handle :=
  (rest.map (·.1)).head?.getD anchor

/-- Where control stands when it goes on to an instruction: before the block if
that is the anchor. -/
def landing (anchor : Handle) (block : List (Handle × Instruction Handle))
    (h : Handle) : Handle :=
  if h = anchor then entrance anchor block else h

theorem landing_anchor : landing anchor block anchor = entrance anchor block :=
  if_pos rfl

theorem landing_of_ne (hne : h ≠ anchor) : landing anchor block h = h := if_neg hne

theorem entrance_prefix (anchor : Handle) (rest : List (Handle × Instruction Handle))
    (back : List Handle) :
    [entrance anchor rest] <+: rest.map (·.1) ++ anchor :: back := by
  cases rest with
  | nil => exact ⟨back, rfl⟩
  | cons e rest => exact ⟨rest.map (·.1) ++ anchor :: back, rfl⟩

theorem first? (hs : Splice b w anchor block) :
    w.instructions.first? = b.instructions.first?.map (landing anchor block) := by
  obtain ⟨front, back, hb, hw⟩ := hs.exists_handles
  have hnd := b.instructions.nodup_handles
  rw [first?_eq_head?, first?_eq_head?, hw, hb]
  cases front with
  | nil =>
      rw [List.nil_append, List.nil_append, List.head?_cons,
        Option.map_some, landing_anchor]
      cases block <;> rfl
  | cons f front =>
      rw [hb, List.cons_append, List.nodup_cons] at hnd
      have hne : f ≠ anchor := fun heq => hnd.1 (by simp [heq])
      simp [landing_of_ne hne]

theorem last? (hs : Splice b w anchor block) :
    w.instructions.last? = b.instructions.last? := by
  obtain ⟨front, back, hb, hw⟩ := hs.exists_handles
  rw [last?_eq_getLast?, last?_eq_getLast?, hw, hb]
  simp [List.getLast?_cons]

/-- An instruction of the block goes on to the next one of the block, and the
last one to the anchor. -/
theorem next?_new (hs : Splice b w anchor block)
    {done rest : List (Handle × Instruction Handle)}
    (hblock : block = done ++ (h, i) :: rest) :
    w.instructions.next? h = some (entrance anchor rest) := by
  obtain ⟨front, back, -, hw⟩ := hs.exists_handles
  obtain ⟨tail, htail⟩ := entrance_prefix anchor rest back
  rw [next?_eq_some_iff, hw]
  refine ⟨front ++ done.map (·.1), tail, ?_⟩
  subst hblock
  simp only [List.map_append, List.map_cons, List.append_assoc,
    List.cons_append, List.nil_append] at htail ⊢
  rw [htail]

/-- An old instruction goes on to where it went before, by way of the block if
that was the anchor. -/
theorem next?_old (hs : Splice b w anchor block)
    (hin : b.instructions.contains h = true) :
    w.instructions.next? h = (b.instructions.next? h).map (landing anchor block) := by
  obtain ⟨front, back, hb, hw⟩ := hs.exists_handles
  have hnd := b.instructions.nodup_handles
  rw [hb] at hnd
  cases hnext : b.instructions.next? h with
  | none =>
      rw [next?_eq_none_iff hin, hb] at hnext
      rw [Option.map_none, next?_eq_none_iff (hs.contains_old hin), hw, ← hnext]
      simp [List.getLast?_cons]
  | some k =>
      rw [next?_eq_some_iff, hb, List.infix_append_iff_ne_nil] at hnext
      rw [Option.map_some, next?_eq_some_iff, hw]
      -- two neighbours stand before the anchor, behind it, or the second one is
      -- the anchor
      rcases hnext with hfront | hback | ⟨xs, ys, hxs, hys, heq, hsuf, hpre⟩
      · have hk : k ∈ front := hfront.subset (by simp)
        have hne : k ≠ anchor := fun heq =>
          List.disjoint_of_nodup_append hnd hk (heq ▸ List.mem_cons_self)
        rw [landing_of_ne hne]
        exact List.infix_append_of_infix_left hfront
      · have hk : k ∈ back := by
          rcases List.infix_cons_iff.mp hback with hpre | hrest
          · exact (List.cons_prefix_cons.mp hpre).2.subset (by simp)
          · exact hrest.subset (by simp)
        have hne : k ≠ anchor := fun heq =>
          (List.nodup_cons.mp (List.nodup_append.mp hnd).2.1).1 (heq ▸ hk)
        rw [landing_of_ne hne]
        exact List.infix_append_of_infix_right
          (List.infix_append_of_infix_right hback)
      · obtain ⟨rfl, rfl⟩ : xs = [h] ∧ ys = [k] := by
          rcases xs with - | ⟨x, - | ⟨x', xs⟩⟩ <;> simp_all
        obtain ⟨rfl, -⟩ := List.cons_prefix_cons.mp hpre
        rw [landing_anchor]
        exact List.infix_append_iff.mpr
          (.inr (.inr ⟨[h], _, rfl, hsuf, entrance_prefix k block back⟩))

/-! ## §4  Links -/

/-- A splice keeps a body closed: the block names no instructions, and all that
was named is still there. -/
theorem isLinked (hs : Splice b w anchor block) (hb : b.IsLinked) : w.IsLinked := by
  refine ⟨?_, ?_⟩
  · intro h i hi t ht
    rcases hs.get?_iff.mp hi with hold | hnew
    · exact hs.contains_old (hb.targets hold t ht)
    · simp [(hs.plain _ hnew).targets] at ht
  · intro x hx h hh
    exact hs.contains_old (hb.marks x (hs.handlers ▸ hx) h hh)

end Splice

end Instrumentation
