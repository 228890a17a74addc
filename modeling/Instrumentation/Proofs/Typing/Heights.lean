import Instrumentation.Insertion
import Instrumentation.Proofs.Typing.StackActions
import Mathlib.Order.Bounds.Basic

/-!
# Heights of typed stacks

How high the stack gets is told three times: typing has the stack itself,
counting by effects keeps a number and stops where it is too small, and the need
of an insertion is the greatest such number, kept without stopping. Where typing
succeeds all three tell the same. Typing may stop earlier than counting, at a
kind that does not fit, but where it runs out of values counting does so too,
and it does not get past a place where counting stops.

Sections: §1 counting · §2 typing and counting · §3 the greatest height · §4
sequences.
-/

namespace Instrumentation

namespace StackTyping

/-! ## §1  Counting -/

section

variable {ρ : Type}

/-- The height of the stack after code, counted by effects from a height on. The
first instruction stands at a position. -/
def countFrom (returnsValue : Bool) : (position height : Nat) → List (Instruction ρ) →
    Except VerifyError Nat
  | _, height, [] => .ok height
  | position, height, i :: code => do
    let effect ← i.effect returnsValue position
    if height < effect.pops then .error (.stackUnderflow position)
    else
      countFrom returnsValue (position + 1) (height - effect.pops + effect.pushes) code

def count (returnsValue : Bool) (code : List (Instruction ρ)) :
    Except VerifyError Nat :=
  countFrom returnsValue 0 0 code

variable {returnsValue : Bool} {position height p : Nat} {i : Instruction ρ}
  {code : List (Instruction ρ)} {effect : StackEffect}

theorem countFrom_cons_of_lt (heffect : i.effect returnsValue position = .ok effect)
    (hlt : height < effect.pops) :
    countFrom returnsValue position height (i :: code) =
      .error (.stackUnderflow position) := by
  rw [countFrom, heffect]
  exact if_pos hlt

theorem countFrom_cons_of_le (heffect : i.effect returnsValue position = .ok effect)
    (hle : effect.pops ≤ height) :
    countFrom returnsValue position height (i :: code) =
      countFrom returnsValue (position + 1)
        (height - effect.pops + effect.pushes) code := by
  rw [countFrom, heffect]
  exact if_neg (Nat.not_lt.mpr hle)

theorem effect_ne_underflow (i : Instruction ρ) (returnsValue : Bool)
    (position p : Nat) :
    i.effect returnsValue position ≠ .error (.stackUnderflow p) := by
  unfold Instruction.effect
  split <;> simp

/-- Counting does not run out of values before it has started. -/
theorem le_of_countFrom
    (hcount : countFrom returnsValue position height code =
      .error (.stackUnderflow p)) :
    position ≤ p := by
  induction code generalizing position height with
  | nil => simp [countFrom] at hcount
  | cons i code ih =>
      cases heffect : i.effect returnsValue position with
      | error e =>
          rw [countFrom, heffect] at hcount
          obtain rfl : e = .stackUnderflow p := Except.error.inj hcount
          exact absurd heffect (effect_ne_underflow i returnsValue position p)
      | ok effect =>
          rcases Nat.lt_or_ge height effect.pops with hlt | hle
          · rw [countFrom_cons_of_lt heffect hlt] at hcount
            obtain rfl : position = p := by simpa using hcount
            exact Nat.le_refl position
          · rw [countFrom_cons_of_le heffect hle] at hcount
            exact Nat.le_of_succ_le (ih hcount)

end

/-! ## §2  Typing and counting -/

/-- What typing and counting answer about the same code. -/
structure Agree (typed : Except VerifyError KindStack)
    (counted : Except VerifyError Nat) : Prop where
  height : ∀ {after}, typed = .ok after → counted = .ok after.length
  starved : ∀ {p}, typed = .error (.stackUnderflow p) →
    counted = .error (.stackUnderflow p)
  noLater : ∀ {p}, counted = .error (.stackUnderflow p) →
    ∃ e q, typed = .error e ∧ e.position? = some q ∧ q ≤ p

section

variable {ρ : Type} {args locals : Array TypeSig} {position : Nat}
  {stack after : KindStack} {code : List (Instruction ρ)}

theorem agree_run (returnsValue : Bool)
    (hkeeps : ∀ i ∈ code, i.op.emptiesStack = false) :
    Agree (run args locals position code stack)
      (countFrom returnsValue position stack.length code) := by
  -- by induction on the code: up to the first refusal of typing, the number is
  -- the height of the stack
  induction code generalizing position stack with
  | nil =>
      refine ⟨?_, nofun, nofun⟩
      rintro - ⟨⟩
      rfl
  | cons i code ih =>
      obtain ⟨hfirst, hrest⟩ := List.forall_mem_cons.mp hkeeps
      rw [run_cons]
      rcases acts_step args locals hfirst with ⟨effect, heffect, hacts⟩ | hrefused
      · cases hstep : step args locals position i stack with
        | ok mid =>
            obtain ⟨hle, hlength⟩ := hacts.height hstep
            rw [countFrom_cons_of_le (heffect _ _) hle, ← hlength]
            exact ih hrest
        | error e =>
            have hplace := hacts.place hstep
            refine ⟨nofun, ?_, ?_⟩
            · rintro p ⟨⟩
              obtain rfl : p = position := Option.some.inj hplace
              exact countFrom_cons_of_lt (heffect _ _) (hacts.starved hstep trivial)
            · intro p hcount
              exact ⟨e, position, rfl, hplace, le_of_countFrom hcount⟩
      · rw [hrefused]
        refine ⟨nofun, nofun, ?_⟩
        intro p hcount
        exact ⟨_, position, rfl, rfl, le_of_countFrom hcount⟩

end

/-! ## §3  The greatest height -/

section

variable {args locals : Array TypeSig} {position : Nat} {stack after : KindStack}
  {i : Instruction Handle} {code : List (Instruction Handle)}

def heights (args locals : Array TypeSig) (position : Nat)
    (code : List (Instruction Handle)) (stack : KindStack) : Set Nat :=
  {h | ∃ front mid, front <+: code ∧ run args locals position front stack = .ok mid ∧
    mid.length = h}

theorem length_mem_heights : stack.length ∈ heights args locals position code stack :=
  ⟨[], stack, List.nil_prefix, rfl, rfl⟩

theorem heights_cons (hstep : step args locals position i stack = .ok after) :
    heights args locals position (i :: code) stack =
      insert stack.length (heights args locals (position + 1) code after) := by
  ext h
  constructor
  · rintro ⟨front, mid, hfront, hrun, rfl⟩
    cases front with
    | nil =>
        obtain rfl : stack = mid := Except.ok.inj hrun
        exact Set.mem_insert _ _
    | cons j front =>
        obtain ⟨rfl, hrest⟩ := List.cons_prefix_cons.mp hfront
        rw [run_cons_of_ok hstep] at hrun
        exact Set.mem_insert_of_mem _ ⟨front, mid, hrest, hrun, rfl⟩
  · rintro (rfl | ⟨front, mid, hfront, hrun, rfl⟩)
    · exact length_mem_heights
    · exact ⟨i :: front, mid, List.cons_prefix_cons.mpr ⟨rfl, hfront⟩,
        by rw [run_cons_of_ok hstep, hrun], rfl⟩

/-- The need of code that can be typed is the greatest height of the stack, or
what had been reached before if that is more. -/
theorem isGreatest_peakFrom (hkeeps : ∀ i ∈ code, i.op.emptiesStack = false)
    (hrun : run args locals position code stack = .ok after) {peak : Nat}
    (hle : stack.length ≤ peak) :
    ∃ n, Insertion.peakFrom position stack.length peak code = .ok n ∧
      IsGreatest (insert peak (heights args locals position code stack)) n := by
  induction code generalizing position stack peak with
  | nil =>
      refine ⟨peak, rfl, Set.mem_insert _ _, ?_⟩
      rintro h (rfl | ⟨front, mid, hfront, hmid, rfl⟩)
      · exact Nat.le_refl h
      · obtain rfl := List.prefix_nil.mp hfront
        obtain rfl : stack = mid := Except.ok.inj hmid
        exact hle
  | cons i code ih =>
      obtain ⟨hfirst, hrest⟩ := List.forall_mem_cons.mp hkeeps
      obtain ⟨mid, hstep, hlater⟩ := run_cons_eq_ok.mp hrun
      rcases acts_step args locals hfirst with ⟨effect, heffect, hacts⟩ | hrefused
      · obtain ⟨-, hlength⟩ := hacts.height hstep
        obtain ⟨n, hpeak, hmem, hbound⟩ :=
          ih hrest hlater (Nat.le_max_right peak mid.length)
        rw [heights_cons hstep]
        refine ⟨n, ?_, ?_, ?_⟩
        · rw [Insertion.peakFrom, heffect, ← hpeak, hlength]
          rfl
        · rcases hmem with rfl | hmem
          · rcases Nat.le_total peak mid.length with hless | hmore
            · rw [Nat.max_eq_right hless]
              exact .inr (.inr length_mem_heights)
            · exact .inl (Nat.max_eq_left hmore)
          · exact .inr (.inr hmem)
        · have hreached : peak ≤ n :=
            (Nat.le_max_left _ _).trans (hbound (Set.mem_insert _ _))
          rintro h (rfl | rfl | hmem)
          · exact hreached
          · exact hle.trans hreached
          · exact hbound (Set.mem_insert_of_mem _ hmem)
      · simp [hrefused] at hstep

end

/-! ## §4  Sequences -/

section

variable {args locals : Array TypeSig} {position : Nat} {stack after : KindStack}
  {code front : List (Instruction Handle)}

theorem exists_run_of_prefix (hrun : run args locals position code stack = .ok after)
    (hfront : front <+: code) :
    ∃ mid, run args locals position front stack = .ok mid := by
  obtain ⟨back, rfl⟩ := hfront
  rw [run_append] at hrun
  cases hmid : run args locals position front stack with
  | error e => simp [hmid, Except.bind] at hrun
  | ok mid => exact ⟨mid, rfl⟩

theorem finalStack_eq_error {e : VerifyError} :
    finalStack code args locals = .error e ↔
      run args locals 0 code [] = .error e := by
  rw [finalStack]
  cases run args locals 0 code [] <;> simp [Except.map]

theorem exists_finalStack_iff {h : Nat} :
    (∃ kinds, finalStack code args locals = .ok kinds ∧ kinds.length = h) ↔
      ∃ mid, run args locals 0 code [] = .ok mid ∧ mid.length = h := by
  constructor
  · rintro ⟨kinds, hkinds, rfl⟩
    exact ⟨kinds.reverse, finalStack_eq_ok.mp hkinds, List.length_reverse⟩
  · rintro ⟨mid, hmid, rfl⟩
    exact ⟨mid.reverse, finalStack_eq_ok.mpr (by rw [List.reverse_reverse, hmid]),
      List.length_reverse⟩

end

/-- Typing a sequence and adding up its effects agree. Where typing succeeds,
adding up never runs out of values, it gives the height of the stack after every
part that starts the sequence, and the need of the sequence is the greatest of
these heights. Where typing runs out of values, adding up runs out at the same
instruction; and where adding up runs out, typing has failed by then. -/
theorem finalStack_agrees (code : List (Instruction Handle))
    (args locals : Array TypeSig) (newLocals : List TypeSig) (returnsValue : Bool)
    (hkeeps : ∀ i ∈ code, i.op.emptiesStack = false) :
    (∀ stack, finalStack code args locals = .ok stack →
      count returnsValue code = .ok stack.length ∧
      (∀ front, front <+: code → ∃ mid, finalStack front args locals = .ok mid ∧
        count returnsValue front = .ok mid.length) ∧
      ∃ n, (⟨code, newLocals⟩ : Insertion).peak = .ok n ∧
        IsGreatest {h | ∃ front mid, front <+: code ∧
          finalStack front args locals = .ok mid ∧ mid.length = h} n) ∧
    (∀ p, finalStack code args locals = .error (.stackUnderflow p) →
      count returnsValue code = .error (.stackUnderflow p)) ∧
    ∀ p, count returnsValue code = .error (.stackUnderflow p) →
      ∃ e q, finalStack code args locals = .error e ∧
        e.position? = some q ∧ q ≤ p := by
  have hagree : ∀ front, front <+: code →
      Agree (run args locals 0 front []) (count returnsValue front) :=
    fun front hfront => agree_run returnsValue fun i hi => hkeeps i (hfront.subset hi)
  refine ⟨?_, ?_, ?_⟩
  · intro stack hstack
    have hrun := finalStack_eq_ok.mp hstack
    have hcount := (hagree code List.prefix_rfl).height hrun
    rw [List.length_reverse] at hcount
    refine ⟨hcount, ?_, ?_⟩
    · intro front hfront
      obtain ⟨mid, hmid⟩ := exists_run_of_prefix hrun hfront
      obtain ⟨kinds, hkinds, hlength⟩ := exists_finalStack_iff.mpr ⟨mid, hmid, rfl⟩
      exact ⟨kinds, hkinds, hlength ▸ (hagree front hfront).height hmid⟩
    · obtain ⟨n, hpeak, hgreatest⟩ := isGreatest_peakFrom hkeeps hrun (Nat.le_refl 0)
      have hzero : 0 ∈ heights args locals 0 code [] := length_mem_heights
      refine ⟨n, hpeak, ?_⟩
      rw [Set.insert_eq_of_mem hzero] at hgreatest
      simpa only [heights, exists_and_left, exists_finalStack_iff] using hgreatest
  · intro p hp
    exact (hagree code List.prefix_rfl).starved (finalStack_eq_error.mp hp)
  · intro p hp
    obtain ⟨e, q, hrun, hq⟩ := (hagree code List.prefix_rfl).noLater hp
    exact ⟨e, q, finalStack_eq_error.mpr hrun, hq⟩

def hungry : List (Instruction Handle) := [.ldarg 0, ⟨.pop, .none⟩, ⟨.pop, .none⟩]

theorem finalStack_agrees_storing :
    (∃ n, (⟨storingArgument, []⟩ : Insertion).peak = .ok n ∧
      IsGreatest {h | ∃ front mid, front <+: storingArgument ∧
        finalStack front #[.primitive .int32, .primitive .int64] #[] = .ok mid ∧
        mid.length = h} n) ∧
    (finalStack hungry #[.string] #[] = .error (.stackUnderflow 2) ∧
      count false hungry = .error (.stackUnderflow 2)) ∧
    ∃ e q, finalStack hungry #[] #[] = .error e ∧ e.position? = some q ∧ q ≤ 2 := by
  have hstoring := finalStack_agrees storingArgument
    #[.primitive .int32, .primitive .int64] #[] [] false (by decide)
  have htyped := finalStack_agrees hungry #[.string] #[] [] false (by decide)
  have huntyped := finalStack_agrees hungry #[] #[] [] false (by decide)
  exact ⟨(hstoring.1 _ rfl).2.2, ⟨rfl, htyped.2.1 2 rfl⟩, huntyped.2.2 2 rfl⟩

end StackTyping

end Instrumentation
