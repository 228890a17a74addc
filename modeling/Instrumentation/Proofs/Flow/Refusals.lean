import Instrumentation.Proofs.Flow.Verified

/-!
# What linked bodies are refused for

Of the faults that verification knows, two are references that lead nowhere: a
target and a mark of a handler that are none of the body's instructions. A body
that names its own instructions only can be refused for any other fault, but not
for these. The stack analysis has to be followed for that, which would run into
such a target by itself: every place that waits to be visited is a position of
the body, since the starts are, and the successors of what stands at a position.

Sections: §1 refusals · §2 the stack analysis · §3 verification · §4 modules.
-/

namespace Instrumentation

/-! ## §1  Refusals -/

/-- Whether a refusal is for a reference that leads nowhere. -/
def VerifyError.Dangles : VerifyError → Prop
  | .invalidTarget .. | .invalidHandler _ => True
  | .inMethod _ cause => cause.Dangles
  | _ => False

/-- A check that refuses nothing for a reference that leads nowhere. -/
def FindsLinked {α : Type} (x : Except VerifyError α) : Prop :=
  ∀ e, x = .error e → ¬ e.Dangles

section

variable {α β : Type}

theorem findsLinked_ok (a : α) : FindsLinked (.ok a) := by
  rintro e ⟨⟩

theorem findsLinked_error {e : VerifyError} (he : ¬ e.Dangles) :
    FindsLinked (.error e : Except VerifyError α) := by
  rintro _ ⟨⟩
  exact he

theorem FindsLinked.bind {x : Except VerifyError α} {g : α → Except VerifyError β}
    (hx : FindsLinked x) (hg : ∀ a, FindsLinked (g a)) : FindsLinked (x >>= g) := by
  cases x with
  | error e => exact findsLinked_error (hx e rfl)
  | ok a => exact hg a

theorem FindsLinked.map {x : Except VerifyError α} (hx : FindsLinked x) (g : α → β) :
    FindsLinked (x.map g) := by
  cases x with
  | error e => exact findsLinked_error (hx e rfl)
  | ok a => exact findsLinked_ok _

theorem Except.mapError_eq_error {ε ε' : Type} {f : ε → ε'} {x : Except ε α} {e' : ε'}
    (h : x.mapError f = .error e') : ∃ e, x = .error e ∧ f e = e' := by
  cases x with
  | error e => exact ⟨e, rfl, Except.error.inj h⟩
  | ok a => simp [Except.mapError] at h

theorem findsLinked_forM {check : α → Except VerifyError Unit} :
    ∀ {xs : List α}, (∀ x ∈ xs, FindsLinked (check x)) → FindsLinked (xs.forM check)
  | [], _ => findsLinked_ok _
  | x :: xs, hall => by
      obtain ⟨hfirst, hrest⟩ := List.forall_mem_cons.mp hall
      have hrest := findsLinked_forM hrest
      rw [List.forM_eq_forM] at hrest ⊢
      rw [List.forM_cons]
      exact hfirst.bind fun _ => hrest

end

theorem Instruction.findsLinked_effect {ρ : Type} (i : Instruction ρ)
    (returnsValue : Bool) (p : Nat) : FindsLinked (i.effect returnsValue p) := by
  unfold effect
  split <;> first | exact findsLinked_ok _ | exact findsLinked_error id

namespace Body

variable {b : Body} {returnsValue : Bool} {h : Handle} {i : Instruction Handle}

/-! ## §2  The stack analysis -/

theorem exists_place (hin : b.instructions.contains h = true) :
    ∃ p, b.place h = .at p := by
  obtain ⟨p, hp⟩ := InstructionList.exists_position? hin
  exact ⟨p, by rw [place, hp]⟩

/-- Whatever position is looked up, the targets of what is found there are
instructions of the body. -/
theorem IsLinked.contains_of_getD (hb : b.IsLinked) (p : Nat) :
    ∀ t ∈ (b.instructions.code.toArray[p]?.getD default).targets,
      b.instructions.contains t = true := by
  intro t ht
  rw [List.getElem?_toArray] at ht
  cases hp : b.instructions.code[p]? with
  | none =>
      rw [hp] at ht
      simp [Instruction.targets, Operand.targets, default] at ht
  | some i =>
      obtain ⟨h, hi⟩ := mem_code.mp (List.mem_of_getElem? hp)
      rw [hp, Option.getD_some] at ht
      exact hb.targets hi t ht

def Inside (work : List (Place × Nat)) : Prop := ∀ x ∈ work, ∃ p, x.1 = .at p

theorem IsLinked.inside_starts (hb : b.IsLinked) : Inside b.starts := by
  intro x hx
  obtain ⟨s, hs, rfl⟩ := mem_starts.mp hx
  exact exists_place (hs.contains hb)

theorem inside_successors (p after : Nat)
    (hi : ∀ t ∈ i.targets, b.instructions.contains t = true) :
    Inside (b.successors p i after) := by
  intro x hx
  rcases List.mem_append.mp hx with htarget | hnext
  · split at htarget
    · obtain ⟨t, ht, rfl⟩ := List.mem_map.mp htarget
      exact exists_place (hi t ht)
    · simp at htarget
  · split at hnext
    · simp at hnext
    · exact ⟨p + 1, congrArg Prod.fst (List.mem_singleton.mp hnext)⟩

/-- A visit of a position goes on to positions, and is refused for nothing else. -/
theorem IsLinked.visit (hb : b.IsLinked) (p d : Nat) {s : Exploration}
    (hs : Inside s.work) :
    FindsLinked (b.visit returnsValue b.instructions.code.toArray (.at p) d s) ∧
      ∀ s', b.visit returnsValue b.instructions.code.toArray (.at p) d s = .ok s' →
        Inside s'.work := by
  refine ⟨?_, ?_⟩
  · unfold Body.visit
    simp only
    split
    · split
      · exact findsLinked_ok _
      · exact findsLinked_error id
    · split
      · rename_i e he
        exact findsLinked_error (Instruction.findsLinked_effect _ _ p e he)
      · split
        · exact findsLinked_error id
        · exact findsLinked_ok _
  · intro s' hok
    obtain ⟨p, -, ⟨-, rfl⟩ | ⟨-, i, e, after, hcode, -, -, -, rfl⟩⟩ := visit_eq_ok hok
    · exact hs
    · intro x hx
      rcases List.mem_append.mp hx with hnew | hold
      · exact inside_successors p after (hcode ▸ hb.contains_of_getD p) x
          (List.mem_reverse.mp hnew)
      · exact hs x hold

theorem IsLinked.explore (hb : b.IsLinked) {fuel : Nat} :
    ∀ {s : Exploration}, Inside s.work → ∀ answer,
      b.explore returnsValue b.instructions.code.toArray fuel s = some answer →
      FindsLinked answer := by
  -- by induction on the fuel; that all places are inside goes along
  induction fuel with
  | zero =>
      rintro ⟨_ | ⟨x, work⟩, depths, peak⟩ hs answer hanswer
      · obtain rfl := Option.some.inj hanswer
        exact findsLinked_ok _
      · simp [Body.explore] at hanswer
  | succ fuel ih =>
      rintro ⟨_ | ⟨⟨place, d⟩, work⟩, depths, peak⟩ hs answer hanswer
      · obtain rfl := Option.some.inj hanswer
        exact findsLinked_ok _
      · obtain ⟨⟨p, hp⟩, hwork⟩ := List.forall_mem_cons.mp hs
        obtain rfl : place = .at p := hp
        obtain ⟨hlinked, hinside⟩ :=
          @IsLinked.visit _ returnsValue hb p d ⟨work, depths, peak⟩ hwork
        rw [Body.explore] at hanswer
        split at hanswer
        · rename_i e he
          obtain rfl := Option.some.inj hanswer
          exact findsLinked_error (hlinked e he)
        · rename_i s' hs'
          exact ih (hinside s' hs') answer hanswer

theorem IsLinked.requiredStack (hb : b.IsLinked) :
    FindsLinked (b.requiredStack returnsValue) := by
  refine FindsLinked.map (hb.explore ?_ _ (peakDepth_eq b returnsValue)) _
  exact fun x hx => hb.inside_starts x (List.mem_reverse.mp hx)

/-! ## §3  Verification -/

theorem IsLinked.checkInstruction (hb : b.IsLinked) (p : Nat)
    (hi : i ∈ b.instructions.code) : FindsLinked (b.checkInstruction p i) := by
  obtain ⟨h, hi⟩ := mem_code.mp hi
  have hnone : i.targets.find? (fun t => !b.instructions.contains t) = none := by
    simpa using hb.targets hi
  unfold Body.checkInstruction
  split
  · exact findsLinked_error id
  · rw [hnone]
    simp only
    split
    · rename_i n _
      unfold StackTyping.localType
      split
      · exact findsLinked_ok _
      · exact findsLinked_error id
    · exact findsLinked_ok _

theorem IsLinked.checkHandler (hb : b.IsLinked) (index : Nat)
    {x : ExceptionHandler Handle} (hx : x ∈ b.handlers) :
    FindsLinked (b.checkHandler index x) := by
  rw [Body.checkHandler, if_pos (List.all_eq_true.mpr (hb.marks x hx))]
  exact findsLinked_ok _

/-- A body that names its own instructions only is refused for no reference. -/
theorem IsLinked.verify (hb : b.IsLinked) (returnsValue : Bool) :
    FindsLinked (b.verify returnsValue) := by
  unfold Body.verify
  split
  · exact findsLinked_error id
  · rename_i last _
    refine (findsLinked_forM ?_).bind fun _ => (findsLinked_forM ?_).bind fun _ => ?_
    · rintro ⟨i, p⟩ hi
      exact hb.checkInstruction p
        (List.mem_of_getElem? (List.mk_mem_zipIdx_iff_getElem?.mp hi))
    · rintro ⟨x, index⟩ hx
      exact hb.checkHandler index
        (List.mem_of_getElem? (List.mk_mem_zipIdx_iff_getElem?.mp hx))
    · refine FindsLinked.bind ?_ fun _ => hb.requiredStack.bind fun required => ?_
      · unfold checkEnd
        split
        · exact findsLinked_ok _
        · exact findsLinked_error id
      · split
        · exact findsLinked_error id
        · exact findsLinked_ok _

end Body

/-! ## §4  Modules -/

theorem MethodDef.findsLinked_verify {β : Type} {m : MethodDef Body}
    (hm : ∀ b ∈ m.body?, b.IsLinked) (declaring : TypeDef β) :
    FindsLinked (m.verify declaring) := by
  unfold MethodDef.verify
  split
  · exact findsLinked_ok _
  · rename_i b hbody
    have hchecked : FindsLinked (do
        b.verify m.returnsValue
        b.instructions.code.zipIdx.forM fun x =>
          checkArg (m.argTypes declaring).toArray x.2 x.1) := by
      refine ((hm b hbody).verify _).bind fun _ => findsLinked_forM fun x _ => ?_
      unfold checkArg
      split
      · unfold StackTyping.argType
        split
        · exact findsLinked_ok _
        · exact findsLinked_error id
      · exact findsLinked_ok _
    intro e he
    obtain ⟨cause, hcause, rfl⟩ := Except.mapError_eq_error he
    exact hchecked cause hcause

/-- A module whose bodies name their own instructions only is refused for no
reference. -/
theorem Module.findsLinked_verify {home : Module Body}
    (hhome : ∀ t ∈ home.types, ∀ m ∈ t.methods, ∀ b ∈ m.body?, b.IsLinked) :
    FindsLinked home.verify :=
  findsLinked_forM fun t ht => findsLinked_forM fun m hm =>
    MethodDef.findsLinked_verify (hhome t ht m hm) t

end Instrumentation
