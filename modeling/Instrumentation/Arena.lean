/-!
# Linked arenas

An arena keeps values by the order of their arrival and links them in another
order, the one in which they are gone through: each to the one before it and to
the one after it. A value that arrives goes before one that is there, or to the
end. None of the others moves; what changes are the links of its two neighbours.

Sections: §1 nodes · §2 growth · §3 the order of an arena · §4 growth of the order.
-/

namespace Instrumentation

/-! ## §1  Nodes -/

/-- A value with the places, by order of arrival, of the one before it and of
the one after it. -/
structure Node (α : Type) where
  value : α
  prev? : Option Nat
  next? : Option Nat

/-- Nodes by order of arrival, and where the order that links them begins and
ends. -/
structure Arena (α : Type) where
  nodes : Array (Node α)
  head? : Option Nat
  tail? : Option Nat

/-- What is met on the way from a place on, in at most so many steps. -/
def chase {β : Type} (next : β → Option β) : (steps : Nat) → Option β → List β
  | 0, _ => []
  | _, none => []
  | steps + 1, some b => b :: chase next steps (next b)

/-- How many places are met before a certain one, besides those met so far. -/
def chaseTo? {β : Type} [DecidableEq β] (next : β → Option β) (goal : β) :
    (steps met : Nat) → Option β → Option Nat
  | 0, _, _ => none
  | _, _, none => none
  | steps + 1, met, some b =>
      if b = goal then some met else chaseTo? next goal steps (met + 1) (next b)

theorem chaseTo?_eq {β : Type} [DecidableEq β] (next : β → Option β) (goal : β)
    (steps met : Nat) (b? : Option β) :
    chaseTo? next goal steps met b? =
      ((chase next steps b?).idxOf? goal).map (· + met) := by
  induction steps generalizing met b? with
  | zero => rfl
  | succ steps ih =>
      cases b? with
      | none => rfl
      | some b =>
          rw [chaseTo?, chase, List.idxOf?_cons]
          by_cases hgoal : b = goal
          · simp [hgoal]
          · simp [hgoal, ih, Function.comp_def, Nat.add_right_comm, Nat.add_assoc]

namespace Arena

variable {α : Type}

def empty : Arena α := ⟨#[], none, none⟩

def size (a : Arena α) : Nat := a.nodes.size

def value? (a : Arena α) (n : Nat) : Option α := a.nodes[n]?.map (·.value)

def next? (a : Arena α) (n : Nat) : Option Nat := a.nodes[n]?.bind (·.next?)

def prev? (a : Arena α) (n : Nat) : Option Nat := a.nodes[n]?.bind (·.prev?)

/-- The places in the order in which they are gone through. -/
def order (a : Arena α) : List Nat := chase a.next? a.size a.head?

/-- How many places stand before one. -/
def rank? (a : Arena α) (n : Nat) : Option Nat := chaseTo? a.next? n a.size 0 a.head?

theorem rank?_eq (a : Arena α) (n : Nat) : a.rank? n = a.order.idxOf? n := by
  simp [rank?, order, chaseTo?_eq]

/-! ## §2  Growth -/

/-- Makes one node follow another, or begin the order. -/
def setNext : Arena α → (after? : Option Nat) → Nat → Arena α
  | ⟨nodes, _, tail?⟩, none, n => ⟨nodes, some n, tail?⟩
  | ⟨nodes, head?, tail?⟩, some m, n =>
      ⟨nodes.modify m fun x => { x with next? := some n }, head?, tail?⟩

/-- Makes one node precede another, or end the order. -/
def setPrev : Arena α → (before? : Option Nat) → Nat → Arena α
  | ⟨nodes, head?, _⟩, none, n => ⟨nodes, head?, some n⟩
  | ⟨nodes, head?, tail?⟩, some m, n =>
      ⟨nodes.modify m fun x => { x with prev? := some n }, head?, tail?⟩

/-- The last node that stands before another, or before the end. -/
def neighbour? (a : Arena α) : (before? : Option Nat) → Option Nat
  | some m => a.prev? m
  | none => a.tail?

/-- Takes in a node that is linked to its neighbours, but they not to it. -/
def allocate : Arena α → Node α → Arena α
  | ⟨nodes, head?, tail?⟩, x => ⟨nodes.push x, head?, tail?⟩

def put (a : Arena α) (before? : Option Nat) (v : α) : Arena α :=
  let n := a.size
  let after? := a.neighbour? before?
  ((a.allocate ⟨v, after?, before?⟩).setNext after? n).setPrev before? n

/-- Puts values before another one, or at the end, the first of them first. -/
def putAll (a : Arena α) (before? : Option Nat) (vs : List α) : Arena α :=
  vs.foldl (·.put before?) a

def set : Arena α → Nat → α → Arena α
  | ⟨nodes, head?, tail?⟩, n, v =>
      ⟨nodes.modify n fun x => { x with value := v }, head?, tail?⟩

section

variable (a : Arena α) (place? : Option Nat) (n k : Nat) (x : Node α) (v : α)

@[simp] theorem size_setNext : (a.setNext place? n).size = a.size := by
  cases place? <;> simp [setNext, size]

@[simp] theorem size_setPrev : (a.setPrev place? n).size = a.size := by
  cases place? <;> simp [setPrev, size]

@[simp] theorem size_allocate : (a.allocate x).size = a.size + 1 := Array.size_push ..

@[simp] theorem size_put : (a.put place? v).size = a.size + 1 := by
  simp [put]

@[simp] theorem size_set : (a.set n v).size = a.size := Array.size_modify ..

theorem value?_setNext : (a.setNext place? n).value? k = a.value? k := by
  cases place? with
  | none => rfl
  | some m =>
      simp only [setNext, value?, Array.getElem?_modify]
      split
      · rw [Option.map_map]
        rfl
      · rfl

theorem value?_setPrev : (a.setPrev place? n).value? k = a.value? k := by
  cases place? with
  | none => rfl
  | some m =>
      simp only [setPrev, value?, Array.getElem?_modify]
      split
      · rw [Option.map_map]
        rfl
      · rfl

theorem next?_setNext :
    (a.setNext place? n).next? k =
      if place? = some k ∧ k < a.size then some n else a.next? k := by
  cases place? with
  | none => rfl
  | some m =>
      simp only [setNext, next?, Array.getElem?_modify, Option.some.injEq, size]
      by_cases hm : m = k
      · subst hm
        by_cases hlt : m < a.nodes.size <;> simp [hlt]
      · simp [hm]

theorem prev?_setPrev :
    (a.setPrev place? n).prev? k =
      if place? = some k ∧ k < a.size then some n else a.prev? k := by
  cases place? with
  | none => rfl
  | some m =>
      simp only [setPrev, prev?, Array.getElem?_modify, Option.some.injEq, size]
      by_cases hm : m = k
      · subst hm
        by_cases hlt : m < a.nodes.size <;> simp [hlt]
      · simp [hm]

@[simp] theorem prev?_setNext : (a.setNext place? n).prev? k = a.prev? k := by
  cases place? with
  | none => rfl
  | some m =>
      simp only [setNext, prev?, Array.getElem?_modify]
      split
      · rw [Option.bind_map]
        rfl
      · rfl

@[simp] theorem next?_setPrev : (a.setPrev place? n).next? k = a.next? k := by
  cases place? with
  | none => rfl
  | some m =>
      simp only [setPrev, next?, Array.getElem?_modify]
      split
      · rw [Option.bind_map]
        rfl
      · rfl

theorem getElem?_allocate :
    (a.allocate x).nodes[k]? = if k = a.size then some x else a.nodes[k]? :=
  Array.getElem?_push ..

theorem putAll_cons (vs : List α) :
    a.putAll place? (v :: vs) = (a.put place? v).putAll place? vs := rfl

theorem value?_put :
    (a.put place? v).value? k = if k = a.size then some v else a.value? k := by
  rw [put, value?_setPrev, value?_setNext, value?, getElem?_allocate]
  split <;> rfl

theorem value?_set :
    (a.set n v).value? k = if k = n ∧ k < a.size then some v else a.value? k := by
  simp only [set, value?, Array.getElem?_modify, size]
  by_cases hn : n = k
  · subst hn
    by_cases hlt : n < a.nodes.size <;> simp [hlt]
  · simp [hn, Ne.symm hn]

/-- The value that has arrived is linked, and so are its two neighbours to it. -/
theorem next?_put :
    (a.put place? v).next? k =
      if a.neighbour? place? = some k ∧ k < a.size + 1 then some a.size
      else if k = a.size then place? else a.next? k := by
  rw [put, next?_setPrev, next?_setNext, size_allocate]
  congr 1
  rw [next?, getElem?_allocate]
  split <;> rfl

theorem prev?_put :
    (a.put place? v).prev? k =
      if place? = some k ∧ k < a.size + 1 then some a.size
      else if k = a.size then a.neighbour? place? else a.prev? k := by
  rw [put, prev?_setPrev, prev?_setNext, size_setNext, size_allocate]
  congr 1
  rw [prev?, getElem?_allocate]
  split <;> rfl

theorem head?_put :
    (a.put place? v).head? =
      if a.neighbour? place? = none then some a.size else a.head? := by
  rw [put]
  cases hprev : a.neighbour? place? <;> cases place? <;> rfl

theorem tail?_put :
    (a.put place? v).tail? = if place? = none then some a.size else a.tail? := by
  rw [put]
  cases hprev : a.neighbour? place? <;> cases place? <;> rfl

end

/-! ## §3  The order of an arena -/

/-- An arena links its places in a certain order: each occurs once, and each is
linked to those that it stands between. -/
structure InOrder (a : Arena α) (order : List Nat) : Prop where
  perm : order.Perm (List.range a.size)
  head : a.head? = order.head?
  tail : a.tail? = order.getLast?
  links : ∀ front n back, order = front ++ n :: back →
    a.prev? n = front.getLast? ∧ a.next? n = back.head?

/-- An arena links its places in some order, one way and the other. -/
def IsLinked (a : Arena α) : Prop := ∃ order, a.InOrder order

end Arena

/-- Whoever goes from each member of a list to the one after it meets the rest
of the list and no more. -/
theorem chase_of_links {β : Type} {next : β → Option β}
    {order back : List β} {steps : Nat}
    (hnext : ∀ front b back, order = front ++ b :: back → next b = back.head?)
    (front : List β) (hsplit : order = front ++ back) (hsteps : back.length ≤ steps) :
    chase next steps back.head? = back := by
  induction back generalizing front steps with
  | nil => cases steps <;> rfl
  | cons b back ih =>
      obtain ⟨steps, rfl⟩ : ∃ n, steps = n + 1 :=
        ⟨steps - 1, by simp at hsteps; omega⟩
      rw [List.head?_cons, chase, hnext front b back hsplit,
        ih (front ++ [b]) (by simpa using hsplit) (by simpa using hsteps)]

namespace Arena

variable {α : Type} {a : Arena α} {order front back : List Nat} {n : Nat}

theorem InOrder.length (ha : a.InOrder order) : order.length = a.size := by
  simpa using ha.perm.length_eq

theorem InOrder.nodup (ha : a.InOrder order) : order.Nodup :=
  ha.perm.nodup_iff.mpr List.nodup_range

theorem InOrder.mem_iff (ha : a.InOrder order) : n ∈ order ↔ n < a.size := by
  simpa using ha.perm.mem_iff (a := n)

/-- The order that an arena links its places in is the one that it is gone
through in. -/
theorem InOrder.order_eq (ha : a.InOrder order) : a.order = order := by
  rw [Arena.order, ha.head]
  exact chase_of_links (fun front n back h => (ha.links front n back h).2) [] rfl
    (Nat.le_of_eq ha.length)

theorem IsLinked.inOrder (ha : a.IsLinked) : a.InOrder a.order := by
  obtain ⟨order, ha⟩ := ha
  rwa [ha.order_eq]

theorem isLinked_empty : (empty : Arena α).IsLinked := by
  refine ⟨[], ⟨List.Perm.refl _, rfl, rfl, ?_⟩⟩
  intro front n back h
  simp at h

/-! ## §4  Growth of the order -/

theorem InOrder.neighbour? (ha : a.InOrder (front ++ back)) :
    a.neighbour? back.head? = front.getLast? := by
  cases back with
  | nil => simpa [Arena.neighbour?] using ha.tail
  | cons n back => exact (ha.links front n back rfl).1

/-- A place in a list that another was put into is that one, or stands before it
or after it. -/
theorem split_of_put {front' back' : List Nat} {k : Nat}
    (h : front ++ n :: back = front' ++ k :: back') :
    (k = n ∧ front' = front ∧ back' = back) ∨
    (∃ mid, front = front' ++ k :: mid ∧ back' = mid ++ n :: back) ∨
    (∃ mid, back = mid ++ k :: back' ∧ front' = front ++ n :: mid) := by
  rcases List.append_eq_append_iff.mp h
    with ⟨mid, hfront, hback⟩ | ⟨mid, hfront, hback⟩
  · cases mid with
    | nil =>
        obtain ⟨rfl, rfl⟩ := List.cons.inj hback
        exact .inl ⟨rfl, by simpa using hfront, rfl⟩
    | cons m mid =>
        obtain ⟨rfl, rfl⟩ := List.cons.inj hback
        exact .inr (.inr ⟨mid, rfl, hfront⟩)
  · cases mid with
    | nil =>
        obtain ⟨rfl, rfl⟩ := List.cons.inj hback
        exact .inl ⟨rfl, by simpa using hfront.symm, rfl⟩
    | cons m mid =>
        obtain ⟨rfl, rfl⟩ := List.cons.inj hback
        exact .inr (.inl ⟨mid, hfront, rfl⟩)

/-- The order with a value that has arrived in its place. -/
theorem InOrder.put (ha : a.InOrder (front ++ back)) (v : α) :
    (a.put back.head? v).InOrder (front ++ a.size :: back) := by
  have hnew : ∀ k ∈ front ++ back, k < a.size := fun k hk => ha.mem_iff.mp hk
  obtain ⟨hfront, hback, hdisjoint⟩ := List.nodup_append.mp ha.nodup
  refine ⟨?_, ?_, ?_, ?_⟩
  · rw [size_put, List.range_succ]
    exact List.perm_middle.trans
      ((ha.perm.cons _).trans (List.perm_append_singleton _ _).symm)
  · rw [head?_put, ha.neighbour?, ha.head]
    cases front <;> simp
  · rw [tail?_put, ha.tail]
    cases back <;> simp
  · intro front' k back' hsplit
    rw [prev?_put, next?_put, ha.neighbour?]
    rcases split_of_put hsplit with ⟨rfl, rfl, rfl⟩ | ⟨mid, rfl, rfl⟩
      | ⟨mid, rfl, rfl⟩
    · have hlast : front'.getLast? ≠ some a.size := fun h =>
        absurd (hnew _ (List.mem_append_left _ (List.mem_of_getLast? h)))
          (Nat.lt_irrefl _)
      have hhead : back'.head? ≠ some a.size := fun h =>
        absurd (hnew _ (List.mem_append_right _ (List.mem_of_head? h)))
          (Nat.lt_irrefl _)
      simp [hlast, hhead]
    · obtain ⟨hprev, hnext⟩ := ha.links front' k (mid ++ back) (by simp)
      have hk : k < a.size := hnew k (by simp)
      have hhead : back.head? ≠ some k := fun h =>
        hdisjoint k (by simp) k (List.mem_of_head? h) rfl
      refine ⟨by simp [hhead, Nat.ne_of_lt hk, hprev], ?_⟩
      cases mid with
      | nil => simp [Nat.lt_succ_of_lt hk]
      | cons m mid =>
          have hlast : (front' ++ k :: m :: mid).getLast? = (m :: mid).getLast? := by
            simp [List.getLast?_cons]
          have hne : (m :: mid).getLast? ≠ some k := fun h =>
            (List.nodup_cons.mp (List.nodup_append.mp hfront).2.1).1
              (List.mem_of_getLast? h)
          rw [hlast, if_neg (hne ·.1), if_neg (Nat.ne_of_lt hk), hnext]
          rfl
    · obtain ⟨hprev, hnext⟩ := ha.links (front ++ mid) k back' (by simp)
      have hk : k < a.size := hnew k (by simp)
      have hlast : front.getLast? ≠ some k := fun h =>
        hdisjoint k (List.mem_of_getLast? h) k (by simp) rfl
      refine ⟨?_, by simp [hlast, Nat.ne_of_lt hk, hnext]⟩
      cases mid with
      | nil => simp [Nat.lt_succ_of_lt hk]
      | cons m mid =>
          have hne : (m :: mid ++ k :: back').head? ≠ some k := fun h =>
            (List.nodup_append.mp hback).2.2 m List.mem_cons_self k List.mem_cons_self
              (Option.some.inj h)
          rw [if_neg (hne ·.1), if_neg (Nat.ne_of_lt hk), hprev]
          simp [List.getLast?_cons]

/-- The order with a block that has arrived in its place. -/
theorem InOrder.putAll (ha : a.InOrder (front ++ back)) (vs : List α) :
    (a.putAll back.head? vs).InOrder
      (front ++ List.range' a.size vs.length ++ back) := by
  induction vs generalizing a front with
  | nil => simpa [Arena.putAll] using ha
  | cons v vs ih =>
      have hput : (a.put back.head? v).InOrder (front ++ [a.size] ++ back) := by
        simpa using ha.put v
      simpa [Arena.putAll, List.range'_succ] using ih hput

theorem IsLinked.putAll (ha : a.IsLinked) {before? : Option Nat}
    (hbefore : ∀ m ∈ before?, m < a.size) (vs : List α) :
    (a.putAll before? vs).IsLinked := by
  have horder := ha.inOrder
  cases before? with
  | none =>
      rw [← List.append_nil a.order] at horder
      exact ⟨_, horder.putAll vs⟩
  | some m =>
      obtain ⟨front, back, hsplit⟩ :=
        List.append_of_mem (horder.mem_iff.mpr (hbefore m rfl))
      rw [hsplit] at horder
      exact ⟨_, horder.putAll vs⟩

theorem IsLinked.push (ha : a.IsLinked) (v : α) : (a.put none v).IsLinked :=
  ha.putAll (by simp : ∀ m ∈ none, m < a.size) [v]

theorem InOrder.set (ha : a.InOrder order) (n : Nat) (v : α) :
    (a.set n v).InOrder order := by
  have hnode :
      ∀ k, (a.set n v).prev? k = a.prev? k ∧ (a.set n v).next? k = a.next? k := by
    intro k
    simp only [Arena.set, prev?, next?, Array.getElem?_modify]
    split
    · rw [Option.bind_map, Option.bind_map]
      exact ⟨rfl, rfl⟩
    · exact ⟨rfl, rfl⟩
  refine ⟨?_, ha.head, ha.tail, ?_⟩
  · rw [size_set]
    exact ha.perm
  · intro front k back hsplit
    rw [(hnode k).1, (hnode k).2]
    exact ha.links front k back hsplit

theorem IsLinked.set (ha : a.IsLinked) (n : Nat) (v : α) : (a.set n v).IsLinked :=
  ⟨_, ha.inOrder.set n v⟩

@[simp] theorem size_putAll (a : Arena α) (before? : Option Nat) (vs : List α) :
    (a.putAll before? vs).size = a.size + vs.length := by
  induction vs generalizing a with
  | nil => rfl
  | cons v vs ih =>
      rw [putAll_cons, ih, size_put, List.length_cons]
      omega

theorem value?_putAll (a : Arena α) (before? : Option Nat) (vs : List α) (k : Nat) :
    (a.putAll before? vs).value? k =
      if k < a.size then a.value? k else vs[k - a.size]? := by
  induction vs generalizing a with
  | nil =>
      split
      · rfl
      · rename_i hge
        simp [Arena.putAll, value?, Array.getElem?_eq_none (Nat.not_lt.mp hge)]
  | cons v vs ih =>
      rw [putAll_cons, ih, size_put, value?_put]
      rcases Nat.lt_trichotomy k a.size with hlt | rfl | hgt
      · rw [if_pos (by omega), if_neg (by omega), if_pos hlt]
      · rw [if_pos (by omega), if_pos rfl, if_neg (by omega), Nat.sub_self,
          List.getElem?_cons_zero]
      · rw [if_neg (by omega), if_neg (by omega),
          show k - a.size = k - (a.size + 1) + 1 by omega, List.getElem?_cons_succ]

end Arena

end Instrumentation
